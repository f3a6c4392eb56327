import BarReplay.Decimal.Numeral
import BarReplay.Error
import BarReplay.Text.Words

/-!
# Settings

Settings answer questions of the form "what is written under this key of this section?". The answer
is a text, or a number or a yes or no if the source of the settings can read it as one; a question
with a default falls back to it when there is no such answer. Lists are written on one line with
bars between their items.
-/

namespace BarReplay

/-- A source of settings. -/
structure Settings where
  /-- The text under a key of a section. -/
  text? : String → String → Option String
  /-- The whole number under a key of a section. -/
  int? : String → String → Option Int
  /-- The number under a key of a section. -/
  float? : String → String → Option Float
  /-- The yes or no under a key of a section. -/
  flag? : String → String → Option Bool

namespace Settings

/-- The items of a list written on one line. -/
def listItems (text : String) : List String :=
  (Text.listed text.toList).map String.ofList

/-- Settings that are the given texts and are never read as anything else. What is given twice
counts as given last. -/
def ofEntries (entries : List (String × String × String)) : Settings :=
  { text? := fun block key ↦
      (entries.reverse.find? fun e ↦ e.1 == block && e.2.1 == key).map fun e ↦ e.2.2
    int? := fun _ _ ↦ none
    float? := fun _ _ ↦ none
    flag? := fun _ _ ↦ none }

variable (settings : Settings)

/-- The whole number under a key, or a default. -/
def int (block key : String) (default : Int) : Int :=
  (settings.int? block key).getD default

/-- The number under a key, or a default. -/
def float (block key : String) (default : Float) : Float :=
  (settings.float? block key).getD default

/-- The yes or no under a key, or a default. -/
def flag (block key : String) (default : Bool) : Bool :=
  (settings.flag? block key).getD default

/-- The list under a key, empty if there is none. -/
def list (block key : String) : List String :=
  ((settings.text? block key).map listItems).getD []

/-- The number under a key, if something is written there; what is written has to be a number. -/
def optionalFloat (block key : String) : Except Error (Option Float) :=
  match settings.text? block key with
  | none => .ok none
  | some text =>
    match Text.trim text.toList with
    | [] => .ok none
    | cs =>
      match Decimal.readFloat? cs with
      | some x => .ok (some x)
      | none => .error (.value block key (.notNumber text))

end Settings

end BarReplay
