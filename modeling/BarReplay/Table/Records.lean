/-!
# Comma-separated records

A table is a sequence of records, each a sequence of fields. A comma ends a field, and a line feed
or a carriage return ends a record; ends of lines before a record are passed over, which also makes
a carriage return and a line feed together one end. A field that starts with a quote goes on to the
quote that is not doubled, through commas and ends of lines; what follows that quote still belongs
to the field. Reading never fails: what is left open at the end of the input is closed there.

A record knows where it started. That place is right behind the character that ended the record
before it, in bytes and in line feeds from the start of the input.
-/

namespace BarReplay.Table

/-- A place in the input: bytes before it, and line feeds before it counted from one. -/
structure Place where
  byte : Nat
  line : Nat
  deriving DecidableEq, Repr

/-- The place after one more byte. -/
def Place.after (p : Place) (b : UInt8) : Place :=
  ⟨p.byte + 1, if b = 0x0A then p.line + 1 else p.line⟩

/-- A record as it is read. -/
structure Record where
  start : Place
  fields : List (List UInt8)
  deriving DecidableEq, Repr

/-- Where reading stands. -/
inductive Mode where
  /-- Before a record. -/
  | between
  /-- Before a field. -/
  | field
  /-- Inside a field, where quotes mean nothing. -/
  | plain
  /-- Between the quotes of a field. -/
  | quoted
  /-- Behind a quote that ends the quoted part or is the first of two. -/
  | quote
  deriving DecidableEq, Repr

/-- A record that has been begun: its start, and its fields and the bytes of the last field, both in
reverse. -/
structure Partial where
  start : Place
  fields : List (List UInt8)
  field : List UInt8

/-- A record that has not been begun. -/
def Partial.empty (start : Place) : Partial :=
  ⟨start, [], []⟩

/-- One more byte in the last field. -/
def Partial.push (p : Partial) (b : UInt8) : Partial :=
  { p with field := b :: p.field }

/-- The end of the last field and the begin of another. -/
def Partial.next (p : Partial) : Partial :=
  { p with fields := p.field.reverse :: p.fields, field := [] }

/-- The end of the record. -/
def Partial.finish (p : Partial) : Record :=
  ⟨p.start, p.next.fields.reverse⟩

/-- The byte ends a line. -/
def isEnd (b : UInt8) : Bool :=
  b == 0x0A || b == 0x0D

/-- The byte is a quote. -/
def isQuote (b : UInt8) : Bool :=
  b == 0x22

/-- The byte is a comma. -/
def isComma (b : UInt8) : Bool :=
  b == 0x2C

/-- What a byte outside of quotes can do. -/
inductive Step where
  /-- It belongs to the field. -/
  | keep
  /-- It ends the field. -/
  | nextField
  /-- It ends the field and the record. -/
  | nextRecord
  deriving DecidableEq, Repr

/-- What a byte outside of quotes does. -/
def stepOf (b : UInt8) : Step :=
  if isComma b then .nextField else if isEnd b then .nextRecord else .keep

/-- The records of the rest of the input, from a place on. -/
def recordsFrom (mode : Mode) (here : Place) (p : Partial) : List UInt8 → List Record
  | [] =>
    match mode with
    | .between => []
    | _ => [p.finish]
  | b :: bs =>
    let there := here.after b
    if mode = .between ∧ isEnd b then recordsFrom .between there p bs
    else if mode = .quoted then
      if isQuote b then recordsFrom .quote there p bs
      else recordsFrom .quoted there (p.push b) bs
    else if mode = .quote ∧ isQuote b then recordsFrom .quoted there (p.push b) bs
    else if (mode = .between ∨ mode = .field) ∧ isQuote b then recordsFrom .quoted there p bs
    else
      match stepOf b with
      | .nextField => recordsFrom .field there p.next bs
      | .nextRecord => p.finish :: recordsFrom .between there (.empty there) bs
      | .keep => recordsFrom .plain there (p.push b) bs

/-- The records of an input. A byte order mark at its start counts as bytes and is otherwise passed
over. -/
def records : List UInt8 → List Record
  | 0xEF :: 0xBB :: 0xBF :: bs => recordsFrom .between ⟨3, 1⟩ (.empty ⟨0, 1⟩) bs
  | bs => recordsFrom .between ⟨0, 1⟩ (.empty ⟨0, 1⟩) bs

end BarReplay.Table
