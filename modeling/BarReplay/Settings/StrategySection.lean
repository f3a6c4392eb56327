import BarReplay.Settings.RunTerms
import BarReplay.Strategy.Draft

/-!
# A strategy in the settings

The section `strategy` holds a draft. `checkStrategy` looks at the same things as `Draft.check`, in
its own order and with its own wording, before anything is made of them.
-/

namespace BarReplay.Settings

/-- The share of the account under a key, if something is written there, is one. -/
def checkShare (settings : Settings) (block key : String) : Except Error Unit := do
  match ← settings.optionalFloat block key with
  | some x => if isShareOfAccount x then pure () else .error (.value block key (.shareSetting key))
  | none => pure ()

/-- The texts of a list, the index of the first text being `index`, are rules. What they are as
rules is not kept. -/
def checkTexts (list : RuleList) (index : Nat) : List String → Except Error Unit
  | [] => pure ()
  | text :: rest =>
    match Expr.parse text with
    | .error e => .error (.rule list index text e)
    | .ok _ => checkTexts list (index + 1) rest

/-- The texts of a rule list are rules. -/
def checkRules (settings : Settings) (list : RuleList) (key : String) : Except Error Unit :=
  checkTexts list 0 (settings.list "strategy" key)

/-- The strategy of the settings is one. -/
def checkStrategy (settings : Settings) : Except Error Unit := do
  settings.checkShare "strategy" "max_position_size"
  settings.checkNonNegative "strategy" "stop_loss"
  settings.checkNonNegative "strategy" "take_profit"
  settings.checkNonNegative "strategy" "commission"
  settings.checkNonNegative "strategy" "slippage"
  settings.checkRules .entry "entry_rules"
  settings.checkRules .exit "exit_rules"

/-- The draft of the settings. What has to be a number is one, and is not looked at further. -/
def draft (settings : Settings) : Except Error Draft := do
  let stopLoss ← settings.optionalFloat "strategy" "stop_loss"
  let takeProfit ← settings.optionalFloat "strategy" "take_profit"
  let fraction ← settings.optionalFloat "strategy" "max_position_size"
  let commission ← settings.optionalFloat "strategy" "commission"
  let slippage ← settings.optionalFloat "strategy" "slippage"
  pure
    { name := (settings.text? "strategy" "name").getD "Unnamed"
      description := (settings.text? "strategy" "description").getD ""
      entryRules := settings.list "strategy" "entry_rules"
      exitRules := settings.list "strategy" "exit_rules"
      stopLoss := stopLoss
      takeProfit := takeProfit
      fraction := fraction
      allocation := none
      commission := commission.getD Costs.standard.commission
      slippage := slippage.getD Costs.standard.slippage }

/-- The draft of the settings, checked first. -/
def checkedDraft (settings : Settings) : Except Error Draft := do
  settings.checkStrategy
  settings.draft

end BarReplay.Settings
