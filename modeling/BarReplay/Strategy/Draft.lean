import BarReplay.Error
import BarReplay.Json.Printer
import BarReplay.Json.Reader
import BarReplay.Json.Value

/-!
# Strategy drafts

Strategies as they are written down, in the settings or in documents of their own.
-/

namespace BarReplay

/-! ### Drafts

A draft is a strategy as it is written down: rules as texts, numbers unchecked, anything that was
left out at its standard. `Draft.check` makes a strategy of it or says what is wrong first. The
numbers are looked at before the rules, and the entry rules before the exit rules.
-/

/-- The nested form in which a document may give the share of the account. -/
structure Allocation where
  fraction : Option Float := none
  deriving DecidableEq

/-- A strategy as it is written down. -/
structure Draft where
  name : String := "Unnamed"
  description : String := ""
  entryRules : List String := []
  exitRules : List String := []
  stopLoss : Option Float := none
  takeProfit : Option Float := none
  fraction : Option Float := none
  allocation : Option Allocation := none
  commission : Float := Costs.standard.commission
  slippage : Float := Costs.standard.slippage
  deriving DecidableEq

namespace Draft

/-- The share of the account that an entry commits when none is written down. -/
def standardFraction : Float :=
  0.2

/-- The share of the account that an entry commits. The one stated for the strategy itself goes
before the nested one. -/
def share (d : Draft) : Float :=
  (d.fraction <|> d.allocation.bind Allocation.fraction).getD standardFraction

/-- A number of a strategy that has to be zero or more. -/
def nonNegative (key : String) (x : Float) : Except Error Float :=
  if isNonNegative x then .ok x else .error (.value "strategy" key (.negative x))

/-- A share of the account. -/
def shareOfAccount (key : String) (x : Float) : Except Error Float :=
  if isShareOfAccount x then .ok x else .error (.value "strategy" key (.notShare x))

/-- A threshold. Zero means that there is none. -/
def threshold (key : String) : Option Float → Except Error (Option Float)
  | none => .ok none
  | some x => if x == 0 then .ok none else (nonNegative key x).map some

/-- The rules that the texts of a list are, the index of the first text being `index`. -/
def rulesFrom (list : RuleList) (index : Nat) : List String → Except Error (List (Rule Float))
  | [] => .ok []
  | text :: rest => do
    let rule ← (Rule.parse text).mapError (.rule list index text)
    let rules ← rulesFrom list (index + 1) rest
    pure (rule :: rules)

/-- The rules that the texts of a list are. -/
def rules (list : RuleList) (texts : List String) : Except Error (List (Rule Float)) :=
  rulesFrom list 0 texts

/-- The strategy that was written down. -/
def check (d : Draft) : Except Error (Strategy Float) := do
  let fraction ← shareOfAccount "max_position_size" d.share
  let stopLoss ← threshold "stop_loss" d.stopLoss
  let takeProfit ← threshold "take_profit" d.takeProfit
  let commission ← nonNegative "commission" d.commission
  let slippage ← nonNegative "slippage" d.slippage
  let entryRules ← rules .entry d.entryRules
  let exitRules ← rules .exit d.exitRules
  pure
    { name := d.name
      description := d.description
      entryRules := entryRules
      exitRules := exitRules
      stopLoss := stopLoss
      takeProfit := takeProfit
      fraction := fraction
      costs := ⟨commission, slippage⟩ }

end Draft

/-! ### Strategy documents

A document holds one draft, or an array of drafts. A draft is an object, in which every key may be
missing and unknown keys are passed over; it may also be an array of the values alone, in the order
of `Draft.keys`, as many as there are. A document is read as one draft if it can be, so an empty
array is one draft with everything left out. Nothing but gaps may follow the value.
-/

open Json (Value)

/-- The nested share of the account. -/
def Allocation.ofJson? (v : Value) : Option Allocation := do
  let entries ← v.record? ["max_position_size"]
  let fraction ← Value.keyed? entries "max_position_size" Value.toOptionalFloat? none
  some ⟨fraction⟩

/-- The nested share of the account, or null. -/
def Allocation.ofOptionalJson? : Value → Option (Option Allocation)
  | .null => some none
  | v => (Allocation.ofJson? v).map some

/-- The nested share of the account as an object. -/
def Allocation.toJson (a : Allocation) : Value :=
  .object [("max_position_size", .ofOptionalFloat a.fraction)]

namespace Draft

/-- The keys of a draft, in their order. -/
def keys : List String :=
  ["name", "description", "entry_rules", "exit_rules", "stop_loss", "take_profit",
    "max_position_size", "asset_allocation", "commission", "slippage"]

/-- The draft that a value is. -/
def ofJson? (v : Value) : Option Draft := do
  let standard : Draft := {}
  let entries ← v.record? keys
  let name ← Value.keyed? entries "name" Value.toText? standard.name
  let description ← Value.keyed? entries "description" Value.toText? standard.description
  let entryRules ← Value.keyed? entries "entry_rules" Value.toTexts? standard.entryRules
  let exitRules ← Value.keyed? entries "exit_rules" Value.toTexts? standard.exitRules
  let stopLoss ← Value.keyed? entries "stop_loss" Value.toOptionalFloat? standard.stopLoss
  let takeProfit ← Value.keyed? entries "take_profit" Value.toOptionalFloat? standard.takeProfit
  let fraction ← Value.keyed? entries "max_position_size" Value.toOptionalFloat? standard.fraction
  let allocation ←
    Value.keyed? entries "asset_allocation" Allocation.ofOptionalJson? standard.allocation
  let commission ← Value.keyed? entries "commission" Value.toFloat? standard.commission
  let slippage ← Value.keyed? entries "slippage" Value.toFloat? standard.slippage
  some
    { name, description, entryRules, exitRules, stopLoss, takeProfit, fraction, allocation,
      commission, slippage }

/-- The draft as an object. The nested share is left out if it was. -/
def toJson (d : Draft) : Value :=
  .object
    ([("name", .string d.name),
      ("description", .string d.description),
      ("entry_rules", .array (d.entryRules.map .string)),
      ("exit_rules", .array (d.exitRules.map .string)),
      ("stop_loss", .ofOptionalFloat d.stopLoss),
      ("take_profit", .ofOptionalFloat d.takeProfit),
      ("max_position_size", .ofOptionalFloat d.fraction)] ++
      (d.allocation.map fun a ↦ ("asset_allocation", a.toJson)).toList ++
      [("commission", .ofFloat d.commission), ("slippage", .ofFloat d.slippage)])

/-- The drafts that a value holds: one, or else as many as its items. -/
def listOfJson? (v : Value) : Option (List Draft) :=
  match ofJson? v with
  | some d => some [d]
  | none =>
    match v with
    | .array items => items.mapM ofJson?
    | _ => none

/-- The drafts of a document. That the value at its head holds no drafts is seen before what
follows the value. -/
def readDocument (text : String) : Except DocumentFault (List Draft) :=
  match Value.scanSound? text with
  | none => .error .notJson
  | some (v, rest) =>
    match listOfJson? v with
    | none => .error .noStrategies
    | some ds => if (Json.skipGap rest).isEmpty then .ok ds else .error .notJson

end Draft

end BarReplay
