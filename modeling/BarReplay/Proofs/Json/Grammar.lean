import BarReplay.Json.Reader
import Mathlib.Logic.Basic

/-!
# The grammar of JSON

What a JSON value is, without saying how it is read. A part of a document stands at the head of a
text and leaves a rest: a value, the items of an array up to its closing bracket, or the entries of
an object up to theirs. A value is also what it denotes: `Derives (.value v) cs rest` relates the
text to the value that is read from it.

The reader accepts the grammar and nothing else. That what it takes is in the grammar follows its
own recursion (`Derives.of_value`). The other direction is an induction on the derivation
(`Derives.scanned`); there the reader has choices to make, which the first character of the text
settles (`ScalarText.exists_head`).
-/

namespace BarReplay.Json

/-! ### What a scanner takes -/

section Takes

variable {β : Type} {p : List Char → Prop} {x : Option (β × { r : List Char // p r })} {b : β}
  {rest : List Char}

/-- What a scanner took and left, without what it promises of the rest. -/
def bare (x : Option (β × { r : List Char // p r })) : Option (β × List Char) :=
  x.map fun taken ↦ (taken.1, taken.2.1)

/-- A scanner that succeeded took `b` and left the rest. -/
def Takes (x : Option (β × { r : List Char // p r })) (b : β) (rest : List Char) : Prop :=
  ∃ h : p rest, x = some (b, ⟨rest, h⟩)

theorem takes_iff : Takes x b rest ↔ bare x = some (b, rest) := by
  rw [bare, Option.map_eq_some_iff]
  constructor
  · rintro ⟨h, rfl⟩
    exact ⟨_, rfl, rfl⟩
  · rintro ⟨taken, rfl, h⟩
    cases h
    exact ⟨taken.2.2, rfl⟩

theorem takes_self {r : { r : List Char // p r }} : Takes (some (b, r)) b r.1 :=
  ⟨r.2, rfl⟩

end Takes

/-! ### Strings -/

/-- A string after its opening quote, the text that it denotes, if it denotes one, and what follows
its closing quote. -/
inductive StringText : List Char → Option (List Char) → List Char → Prop where
  | close {rest : List Char} : StringText ('"' :: rest) (some []) rest
  | long {cs after rest : List Char} {c : Option Char} {text : Option (List Char)}
      (escape : longEscape? cs = some (c, after)) (tail : StringText after text rest) :
      StringText ('\\' :: 'u' :: cs) (consText c text) rest
  | short {e c : Char} {cs rest : List Char} {text : Option (List Char)}
      (escape : shortEscape? e = some c) (tail : StringText cs text rest) :
      StringText ('\\' :: e :: cs) (consText c text) rest
  | plain {c : Char} {cs rest : List Char} {text : Option (List Char)}
      (raw : ¬ (c.toNat < 0x20 ∨ c = '\\')) (other : c ≠ '"') (tail : StringText cs text rest) :
      StringText (c :: cs) (consText c text) rest

theorem StringText.of_takes {cs rest : List Char} {text : Option (List Char)}
    (h : Takes (scanString? cs) text rest) : StringText cs text rest := by
  obtain ⟨hlength, h⟩ := h
  fun_induction scanString? cs generalizing text rest with
  | case1 => cases h
  | case2 cs =>
    cases h
    exact .close
  | case3 => cases h
  | case4 => cases h
  | case5 cs c after escape hafter text' rest' hrest' hscan ih =>
    cases h
    exact .long escape (ih hrest' hscan)
  | case6 => cases h
  | case7 => cases h
  | case8 e cs hu c escape text' rest' hrest' hscan ih =>
    cases h
    exact .short escape (ih hrest' hscan)
  | case9 => cases h
  | case10 => cases h
  | case11 c cs hquote hlong hshort raw text' rest' hrest' hscan ih =>
    cases h
    exact .plain raw hquote (ih hrest' hscan)

theorem StringText.takes {cs rest : List Char} {text : Option (List Char)}
    (h : StringText cs text rest) : Takes (scanString? cs) text rest := by
  induction h with
  | close =>
    rw [scanString?]
    exact takes_self
  | @long cs after rest c text escape tail ih =>
    obtain ⟨hlength, hscan⟩ := ih
    rw [scanString?]
    split
    · rename_i hnone
      rw [hnone] at escape
      cases escape
    · rename_i hsome
      rw [hsome] at escape
      cases escape
      simp only [hscan]
      exact takes_self
  | @short e c cs rest text escape tail ih =>
    obtain ⟨hlength, hscan⟩ := ih
    have hu : e = 'u' → False := by
      rintro rfl
      cases escape
    rw [scanString?.eq_4 e cs hu]
    simp only [escape, hscan]
    exact takes_self
  | @plain c cs rest text raw other tail ih =>
    obtain ⟨hlength, hscan⟩ := ih
    rw [scanString?.eq_5 c cs other (fun _ h _ ↦ raw (.inr h)) (fun _ _ h _ ↦ raw (.inr h)),
      if_neg raw]
    simp only [hscan]
    exact takes_self

/-! ### Scalars -/

/-- A literal, a number or a string at the head of a text. -/
inductive ScalarText : List Char → Value → List Char → Prop where
  | string {cs rest : List Char} {text : Option (List Char)} (inside : StringText cs text rest) :
      ScalarText ('"' :: cs) (stringOf cs rest text) rest
  | literal {cs rest : List Char} {v : Value} (word : scanLiteral? cs = some (v, rest)) :
      ScalarText cs v rest
  | number {cs text rest : List Char} (digits : scanNumber? cs = some (text, rest)) :
      ScalarText cs (.number text) rest

/-- The characters that a literal starts with. -/
theorem head_of_literal {cs rest : List Char} {v : Value} (h : scanLiteral? cs = some (v, rest)) :
    ∃ c tail, cs = c :: tail ∧ (c = 'n' ∨ c = 't' ∨ c = 'f') := by
  unfold scanLiteral? at h
  split at h <;> cases h
  · exact ⟨_, _, rfl, .inl rfl⟩
  · exact ⟨_, _, rfl, .inr (.inl rfl)⟩
  · exact ⟨_, _, rfl, .inr (.inr rfl)⟩

theorem head_of_whole {cs ds rest : List Char} (h : scanWhole? cs = some (ds, rest)) :
    ∃ c tail, cs = c :: tail ∧ c.isDigit = true := by
  cases cs with
  | nil => cases h
  | cons c tail =>
    refine ⟨c, tail, rfl, ?_⟩
    refine Classical.byContradiction fun hc ↦ ?_
    have hscan : Decimal.scanDigits (c :: tail) = ([], c :: tail) := by
      simp [Decimal.scanDigits, hc]
    rw [scanWhole?, hscan] at h
    cases h

/-- A number starts with its sign or with a digit. -/
theorem head_of_number {cs text rest : List Char} (h : scanNumber? cs = some (text, rest)) :
    ∃ c tail, cs = c :: tail ∧ (c = '-' ∨ c.isDigit = true) := by
  simp only [scanNumber?, Option.bind_eq_bind, Option.bind_eq_some_iff] at h
  obtain ⟨⟨whole, after⟩, hwhole, -⟩ := h
  split at hwhole
  · exact ⟨_, _, rfl, .inl rfl⟩
  · obtain ⟨c, tail, rfl, hc⟩ := head_of_whole hwhole
    exact ⟨c, tail, rfl, .inr hc⟩

/-- No number is a literal. -/
theorem scanLiteral?_of_number {cs text rest : List Char}
    (h : scanNumber? cs = some (text, rest)) : scanLiteral? cs = none := by
  obtain ⟨c, tail, rfl, hc⟩ := head_of_number h
  cases hliteral : scanLiteral? (c :: tail) with
  | none => rfl
  | some taken =>
    obtain ⟨c', tail', heq, hc'⟩ := head_of_literal hliteral
    obtain ⟨rfl, -⟩ := List.cons.inj heq
    exfalso
    rcases hc' with rfl | rfl | rfl
    all_goals
      revert hc
      decide

theorem ScalarText.exists_head {cs rest : List Char} {v : Value} (h : ScalarText cs v rest) :
    ∃ c tail, cs = c :: tail ∧ c ≠ '[' ∧ c ≠ ']' ∧ c ≠ '\x7b' := by
  cases h with
  | string => exact ⟨_, _, rfl, by decide⟩
  | literal word =>
    obtain ⟨c, tail, rfl, hc⟩ := head_of_literal word
    refine ⟨c, tail, rfl, ?_⟩
    rcases hc with rfl | rfl | rfl <;> decide
  | number digits =>
    obtain ⟨c, tail, rfl, hc⟩ := head_of_number digits
    refine ⟨c, tail, rfl, ?_, ?_, ?_⟩
    all_goals
      rintro rfl
      revert hc
      decide

theorem ScalarText.of_takes {cs rest : List Char} {v : Value} (h : Takes (scanScalar? cs) v rest) :
    ScalarText cs v rest := by
  obtain ⟨hlength, h⟩ := h
  unfold scanScalar? at h
  split at h
  · cases h
  · split at h
    · cases h
    · rename_i hscan
      cases h
      exact .string (StringText.of_takes ⟨_, hscan⟩)
  · split at h
    · rename_i word
      cases h
      exact .literal word
    · split at h
      · rename_i digits
        cases h
        exact .number digits
      · cases h

/-- What does not start with a quote is read as a literal or else as a number. -/
theorem bare_scanScalar?_other {c : Char} (hc : c ≠ '"') (cs : List Char) :
    bare (scanScalar? (c :: cs)) =
      (scanLiteral? (c :: cs)).or ((scanNumber? (c :: cs)).map fun x ↦ (.number x.1, x.2)) := by
  rw [scanScalar?.eq_3 _ _ hc]
  split
  next word =>
    simp only [word]
    rfl
  next hliteral =>
    rw [hliteral]
    split
    next digits =>
      simp only [digits]
      rfl
    next hnumber =>
      rw [hnumber]
      rfl

theorem ScalarText.takes {cs rest : List Char} {v : Value} (h : ScalarText cs v rest) :
    Takes (scanScalar? cs) v rest := by
  cases h with
  | string inside =>
    obtain ⟨hlength, hscan⟩ := inside.takes
    rw [scanScalar?]
    simp only [hscan]
    exact takes_self
  | literal word =>
    obtain ⟨c, tail, rfl, hc⟩ := head_of_literal word
    have hquote : c ≠ '"' := by
      rintro rfl
      revert hc
      decide
    rw [takes_iff, bare_scanScalar?_other hquote, word]
    rfl
  | number digits =>
    obtain ⟨c, tail, rfl, hc⟩ := head_of_number digits
    have hquote : c ≠ '"' := by
      rintro rfl
      revert hc
      decide
    rw [takes_iff, bare_scanScalar?_other hquote, scanLiteral?_of_number digits, digits]
    rfl

/-! ### Values -/

/-- The parts of a document that stand in one another. -/
inductive Part where
  | value (v : Value)
  /-- The items of an array from one of them on. -/
  | items (items : List Value)
  /-- The entries of an object from one of them on, if all their keys denote texts. -/
  | entries (entries : Option (List (String × Value)))

/-- **The grammar of JSON.** A part stands at the head of a text, after a gap, and leaves the rest.
Items and entries end with the closing bracket. -/
inductive Derives : Part → List Char → List Char → Prop where
  | scalar {cs rest : List Char} {v : Value} (text : ScalarText (skipGap cs) v rest) :
      Derives (.value v) cs rest
  | emptyArray {cs inner rest : List Char} (opening : skipGap cs = '[' :: inner)
      (closing : skipGap inner = ']' :: rest) : Derives (.value (.array [])) cs rest
  | array {cs inner rest : List Char} {items : List Value} (opening : skipGap cs = '[' :: inner)
      (parts : Derives (.items items) inner rest) : Derives (.value (.array items)) cs rest
  | emptyObject {cs inner rest : List Char} (opening : skipGap cs = '\x7b' :: inner)
      (closing : skipGap inner = '\x7d' :: rest) : Derives (.value (.object [])) cs rest
  | object {cs inner rest : List Char} {entries : Option (List (String × Value))}
      (opening : skipGap cs = '\x7b' :: inner) (parts : Derives (.entries entries) inner rest) :
      Derives (.value (objectOf inner rest entries)) cs rest
  | lastItem {cs after rest : List Char} {v : Value} (item : Derives (.value v) cs after)
      (closing : skipGap after = ']' :: rest) : Derives (.items [v]) cs rest
  | moreItems {cs after more rest : List Char} {v : Value} {items : List Value}
      (item : Derives (.value v) cs after) (comma : skipGap after = ',' :: more)
      (others : Derives (.items items) more rest) : Derives (.items (v :: items)) cs rest
  | lastEntry {cs text afterKey afterColon after rest : List Char} {key : Option (List Char)}
      {v : Value} (opening : skipGap cs = '"' :: text) (name : StringText text key afterKey)
      (colon : skipGap afterKey = ':' :: afterColon) (value : Derives (.value v) afterColon after)
      (closing : skipGap after = '\x7d' :: rest) :
      Derives (.entries (consEntry key v (some []))) cs rest
  | moreEntries {cs text afterKey afterColon after more rest : List Char} {key : Option (List Char)}
      {v : Value} {entries : Option (List (String × Value))} (opening : skipGap cs = '"' :: text)
      (name : StringText text key afterKey) (colon : skipGap afterKey = ':' :: afterColon)
      (value : Derives (.value v) afterColon after) (comma : skipGap after = ',' :: more)
      (others : Derives (.entries entries) more rest) :
      Derives (.entries (consEntry key v entries)) cs rest

/-! ### What is read is in the grammar -/

mutual

theorem Derives.of_value {cs rest : List Char} {v : Value} (h : Takes (scanValue? cs) v rest) :
    Derives (.value v) cs rest := by
  obtain ⟨hlength, h⟩ := h
  rw [scanValue?] at h
  split at h
  · rename_i inner opening
    have hinner := length_lt_of_skipGap opening
    split at h
    · rename_i closing
      cases h
      exact .emptyArray opening closing
    · split at h
      · cases h
      · rename_i hscan
        cases h
        exact .array opening (Derives.of_items ⟨_, hscan⟩)
  · rename_i inner opening
    have hinner := length_lt_of_skipGap opening
    split at h
    · rename_i closing
      cases h
      exact .emptyObject opening closing
    · split at h
      · cases h
      · rename_i hscan
        cases h
        exact .object opening (Derives.of_entries ⟨_, hscan⟩)
  · split at h
    · cases h
    · rename_i hscan
      cases h
      exact .scalar (ScalarText.of_takes ⟨_, hscan⟩)
termination_by (cs.length, 1)

theorem Derives.of_items {cs rest : List Char} {items : List Value}
    (h : Takes (scanItems? cs) items rest) : Derives (.items items) cs rest := by
  obtain ⟨hlength, h⟩ := h
  rw [scanItems?] at h
  split at h
  · cases h
  · rename_i v after hafter hscan
    have item := Derives.of_value ⟨_, hscan⟩
    split at h
    · rename_i more comma
      have hmore := length_lt_of_skipGap comma
      split at h
      · cases h
      · rename_i hscan'
        cases h
        exact .moreItems item comma (Derives.of_items ⟨_, hscan'⟩)
    · rename_i closing
      cases h
      exact .lastItem item closing
    · cases h
termination_by (cs.length, 2)

theorem Derives.of_entries {cs rest : List Char} {entries : Option (List (String × Value))}
    (h : Takes (scanEntries? cs) entries rest) : Derives (.entries entries) cs rest := by
  obtain ⟨hlength, h⟩ := h
  rw [scanEntries?] at h
  split at h
  · rename_i text opening
    have htext := length_lt_of_skipGap opening
    split at h
    · cases h
    · rename_i key afterKey hafterKey hname
      have name := StringText.of_takes ⟨_, hname⟩
      split at h
      · rename_i afterColon colon
        have hafterColon := length_lt_of_skipGap colon
        split at h
        · cases h
        · rename_i v after hafter hscan
          have value := Derives.of_value ⟨_, hscan⟩
          split at h
          · rename_i more comma
            have hmore := length_lt_of_skipGap comma
            split at h
            · cases h
            · rename_i hscan'
              cases h
              exact .moreEntries opening name colon value comma (Derives.of_entries ⟨_, hscan'⟩)
          · rename_i closing
            cases h
            exact .lastEntry opening name colon value closing
          · cases h
      · cases h
  · cases h
termination_by (cs.length, 2)

end

/-! ### What is in the grammar is read -/

/-- Reading a value, without the proofs that the rests are shorter. -/
theorem bare_scanValue? (cs : List Char) : bare (scanValue? cs) =
    match skipGap cs with
    | '[' :: inner =>
      match skipGap inner with
      | ']' :: rest => some (.array [], rest)
      | _ => (bare (scanItems? inner)).map fun x ↦ (.array x.1, x.2)
    | '\x7b' :: inner =>
      match skipGap inner with
      | '\x7d' :: rest => some (.object [], rest)
      | _ => (bare (scanEntries? inner)).map fun x ↦ (objectOf inner x.2 x.1, x.2)
    | text => bare (scanScalar? text) := by
  rw [scanValue?]
  split
  next inner opening =>
    simp only [opening]
    split
    next rest closing =>
      simp only [closing]
      rfl
    next hmore =>
      rcases scanItems? inner with - | ⟨items, r, hr⟩
      all_goals
        dsimp only
        split
        · exact absurd ‹_› (hmore _)
        · rfl
  next inner opening =>
    simp only [opening]
    split
    next rest closing =>
      simp only [closing]
      rfl
    next hmore =>
      rcases scanEntries? inner with - | ⟨entries, r, hr⟩
      all_goals
        dsimp only
        split
        · exact absurd ‹_› (hmore _)
        · rfl
  next harray hobject =>
    rcases hscan : scanScalar? (skipGap cs) with - | ⟨v, r, hr⟩
    all_goals
      dsimp only
      split
      · exact absurd ‹_› (harray _)
      · exact absurd ‹_› (hobject _)
      · rw [hscan]
        rfl

/-- Reading items, without the proofs that the rests are shorter. -/
theorem bare_scanItems? (cs : List Char) : bare (scanItems? cs) =
    (bare (scanValue? cs)).bind fun (v, after) ↦
      match skipGap after with
      | ',' :: more => (bare (scanItems? more)).map fun (items, rest) ↦ (v :: items, rest)
      | ']' :: rest => some ([v], rest)
      | _ => none := by
  rw [scanItems?]
  rcases scanValue? cs with - | ⟨v, after, hafter⟩
  · rfl
  · simp only [bare, Option.map_some, Option.bind_some]
    split
    next more comma =>
      simp only [comma]
      rcases scanItems? more with - | ⟨items, r, hr⟩ <;> rfl
    next rest closing =>
      simp only [closing]
      rfl
    next hmore hend =>
      split
      · exact absurd ‹_› (hmore _)
      · exact absurd ‹_› (hend _)
      · rfl

/-- Reading entries, without the proofs that the rests are shorter. -/
theorem bare_scanEntries? (cs : List Char) : bare (scanEntries? cs) =
    match skipGap cs with
    | '"' :: text =>
      (bare (scanString? text)).bind fun (key, afterKey) ↦
        match skipGap afterKey with
        | ':' :: afterColon =>
          (bare (scanValue? afterColon)).bind fun (v, after) ↦
            match skipGap after with
            | ',' :: more =>
              (bare (scanEntries? more)).map fun (entries, rest) ↦ (consEntry key v entries, rest)
            | '\x7d' :: rest => some (consEntry key v (some []), rest)
            | _ => none
        | _ => none
    | _ => none := by
  rw [scanEntries?]
  split
  next text opening =>
    simp only [opening]
    rcases scanString? text with - | ⟨key, afterKey, hafterKey⟩
    · rfl
    · simp only [bare, Option.map_some, Option.bind_some]
      split
      next afterColon colon =>
        simp only [colon]
        rcases scanValue? afterColon with - | ⟨v, after, hafter⟩
        · rfl
        · simp only [Option.map_some, Option.bind_some]
          split
          next more comma =>
            simp only [comma]
            rcases scanEntries? more with - | ⟨entries, r, hr⟩ <;> rfl
          next rest closing =>
            simp only [closing]
            rfl
          next hmore hend =>
            split
            · exact absurd ‹_› (hmore _)
            · exact absurd ‹_› (hend _)
            · rfl
      next hcolon =>
        split
        · exact absurd ‹_› (hcolon _)
        · rfl
  next hopening =>
    split
    · exact absurd ‹_› (hopening _)
    · rfl

/-- No value starts with a closing bracket. -/
theorem Derives.not_closing {cs rest : List Char} {v : Value} (h : Derives (.value v) cs rest)
    (r : List Char) : skipGap cs ≠ ']' :: r := by
  intro hclosing
  cases h with
  | scalar text =>
    obtain ⟨c, tail, hhead, -, hne, -⟩ := text.exists_head
    exact hne (List.cons.inj (hhead.symm.trans hclosing)).1
  | emptyArray opening => simp [opening] at hclosing
  | array opening => simp [opening] at hclosing
  | emptyObject opening => simp [opening] at hclosing
  | object opening => simp [opening] at hclosing

theorem Derives.items_not_closing {cs rest : List Char} {items : List Value}
    (h : Derives (.items items) cs rest) (r : List Char) : skipGap cs ≠ ']' :: r := by
  cases h with
  | lastItem item => exact item.not_closing r
  | moreItems item => exact item.not_closing r

theorem Derives.entries_not_closing {cs rest : List Char}
    {entries : Option (List (String × Value))} (h : Derives (.entries entries) cs rest)
    (r : List Char) : skipGap cs ≠ '\x7d' :: r := by
  intro hclosing
  cases h with
  | lastEntry opening => simp [opening] at hclosing
  | moreEntries opening => simp [opening] at hclosing

/-- The part is what its scanner takes. -/
def Part.Scanned (cs rest : List Char) : Part → Prop
  | .value v => bare (scanValue? cs) = some (v, rest)
  | .items vs => bare (scanItems? cs) = some (vs, rest)
  | .entries es => bare (scanEntries? cs) = some (es, rest)

theorem Derives.scanned {part : Part} {cs rest : List Char} (h : Derives part cs rest) :
    part.Scanned cs rest := by
  induction h with
  | scalar text =>
    obtain ⟨c, tail, hhead, hbracket, -, hbrace⟩ := text.exists_head
    show bare (scanValue? _) = _
    rw [bare_scanValue?, ← takes_iff.1 text.takes, hhead]
    split
    · exact absurd (List.cons.inj ‹_›).1 hbracket
    · exact absurd (List.cons.inj ‹_›).1 hbrace
    · rfl
  | emptyArray opening closing =>
    show bare (scanValue? _) = _
    rw [bare_scanValue?, opening]
    simp only [closing]
  | array opening parts ih =>
    simp only [Part.Scanned] at ih ⊢
    rw [bare_scanValue?, opening]
    simp only [ih, Option.map_some]
    split
    · exact absurd ‹_› (parts.items_not_closing _)
    · rfl
  | emptyObject opening closing =>
    show bare (scanValue? _) = _
    rw [bare_scanValue?, opening]
    simp only [closing]
  | object opening parts ih =>
    simp only [Part.Scanned] at ih ⊢
    rw [bare_scanValue?, opening]
    simp only [ih, Option.map_some]
    split
    · exact absurd ‹_› (parts.entries_not_closing _)
    · rfl
  | lastItem item closing ih =>
    simp only [Part.Scanned] at ih ⊢
    rw [bare_scanItems?, ih, Option.bind_some]
    simp only [closing]
  | moreItems item comma others ihItem ihOthers =>
    simp only [Part.Scanned] at ihItem ihOthers ⊢
    rw [bare_scanItems?, ihItem, Option.bind_some]
    simp only [comma, ihOthers, Option.map_some]
  | lastEntry opening name colon value closing ih =>
    simp only [Part.Scanned] at ih ⊢
    rw [bare_scanEntries?, opening]
    simp only [takes_iff.1 name.takes, Option.bind_some, colon, ih, closing]
  | moreEntries opening name colon value comma others ihValue ihOthers =>
    simp only [Part.Scanned] at ihValue ihOthers ⊢
    rw [bare_scanEntries?, opening]
    simp only [takes_iff.1 name.takes, Option.bind_some, colon, ihValue, comma,
      ihOthers, Option.map_some]

end BarReplay.Json
