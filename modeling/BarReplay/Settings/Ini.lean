import BarReplay.Settings.Basic
import BarReplay.Text.LowerCase
import BarReplay.Text.Utf8

/-!
# Settings in sections

The text form of settings: lines `[section]` and `key = value`. A semicolon or a number sign starts
a comment, at the start of a line or after what is written there. A line belongs to the section
named last before it, or to the section `default`; what is written twice counts as written last, and
a key without a value counts as not written. Letter case is no part of a section name or a key.
-/

namespace BarReplay.Ini

/-- One line `key = value` or `key`, in its section. -/
structure Entry where
  block : List Char
  key : List Char
  value : Option (List Char)
  deriving DecidableEq, Repr

/-- The character starts a comment. -/
def startsComment (c : Char) : Bool :=
  c == ';' || c == '#'

/-- The character separates a key from its value. -/
def isDelimiter (c : Char) : Bool :=
  c == '=' || c == ':'

/-- What a line says, without its comment. -/
def content (line : List Char) : List Char :=
  Text.trim ((Text.trim line).takeWhile fun c ↦ !startsComment c)

/-- The name in a line that starts with an opening bracket, up to the last closing bracket, given
what follows the opening one. -/
def sectionName? (rest : List Char) : Option (List Char) :=
  match rest.reverse.dropWhile (· != ']') with
  | [] => none
  | _ :: name => some (Text.lower (Text.trim name.reverse))

/-- The key and the value of a line. -/
def entry (block line : List Char) : Except LineFault Entry :=
  let key := Text.trim (line.takeWhile fun c ↦ !isDelimiter c)
  match line.dropWhile fun c ↦ !isDelimiter c with
  | [] => .ok ⟨block, Text.lower key, none⟩
  | _ :: value =>
    if key.isEmpty then
      .error (.emptyKey (Text.byteLength (line.takeWhile fun c ↦ !isDelimiter c)))
    else .ok ⟨block, Text.lower key, some (Text.trim value)⟩

/-- The entries of the lines from the given number on, in the section `block` until another is
named. -/
def entriesFrom (number : Nat) (block : List Char) :
    List (List Char) → Except SettingsFault (List Entry)
  | [] => .ok []
  | line :: rest =>
    match content line with
    | [] => entriesFrom (number + 1) block rest
    | '[' :: name =>
      match sectionName? name with
      | some block => entriesFrom (number + 1) block rest
      | none => .error ⟨number, .unclosedSection⟩
    | line => do
      let e ← (entry block line).mapError (SettingsFault.mk number)
      let es ← entriesFrom (number + 1) block rest
      pure (e :: es)

/-- The entries of a text. -/
def entries (text : String) : Except SettingsFault (List Entry) :=
  entriesFrom 1 "default".toList (Text.lines text.toList)

/-- The text written last under a key of a section. -/
def lookup? (es : List Entry) (block key : String) : Option (List Char) :=
  let b := Text.lower block.toList
  let k := Text.lower key.toList
  (es.reverse.find? fun e ↦ e.block == b && e.key == k).bind Entry.value

/-- What a text says as a yes or no. -/
def readFlag? (cs : List Char) : Option Bool :=
  let word := String.ofList (Text.lower (Text.trim cs))
  if word ∈ ["true", "yes", "on", "1"] then some true
  else if word ∈ ["false", "no", "off", "0"] then some false
  else none

/-- The settings that the entries are. -/
def toSettings (es : List Entry) : Settings :=
  { text? := fun block key ↦ (lookup? es block key).map String.ofList
    int? := fun block key ↦ (lookup? es block key).bind Decimal.readInt?
    float? := fun block key ↦ (lookup? es block key).bind Decimal.readFloat?
    flag? := fun block key ↦ (lookup? es block key).bind readFlag? }

/-- The settings that a text is. -/
def parse (text : String) : Except SettingsFault Settings :=
  (entries text).map toSettings

end BarReplay.Ini
