import BarReplay.Proofs.Decimal.Zero
import BarReplay.Proofs.Rule.Canonical
import BarReplay.Proofs.Strategy.Acceptance
import BarReplay.Settings.StrategySection
import Mathlib.Logic.Unique

/-!
# The check of a strategy section

A strategy in the settings is looked at twice: `Settings.checkStrategy` looks at what is written, in
its own order and with tests of its own, and `Draft.check` looks at the draft that is made of it.
The two agree. What passes the first is a strategy, what is a strategy passes the first, and if they
refuse a text in a rule list, they refuse the same text in the same words.

Both look at the five numbers before the rules, so the comparison has two parts. The numbers are in
range for the one exactly if they are for the other (`numbersInRange_iff`): the tests agree on every
double (`isOutOfRange_eq_not`), a threshold of zero is in range before it is switched off, and a
number that is left out is replaced by one that is in range. If they are in range, both come to the
rules and find the same fault in the same texts (`checkTexts_eq_map`).
-/

namespace BarReplay

/-! ### Comparisons with zero -/

section Zero

open Float.Model Float.Model.UnpackedFloat

theorem isOutOfRange_eq (x : Float) : Settings.isOutOfRange x =
    (!x.toModel.unpack.isFinite || UnpackedFloat.lt x.toModel.unpack (.zero .positive)) := by
  rw [Settings.isOutOfRange]
  congr 1
  rw [Bool.eq_iff_iff, decide_eq_true_iff]
  show decide (x.toModel < (0 : Float).toModel) = true ↔ _
  rw [decide_eq_true_iff]
  exact Iff.rfl

/-- A number is refused as a setting exactly if it is not accepted as a number of a strategy. -/
theorem isOutOfRange_eq_not (x : Float) : Settings.isOutOfRange x = !isNonNegative x := by
  rw [isOutOfRange_eq, isNonNegative_eq]
  cases x.toModel.unpack with
  | infinity s => cases s <;> rfl
  | notANumber => rfl
  | zero s => rfl
  | finite s m e hm => cases s <;> rfl

end Zero

/-! ### The draft -/

namespace Draft

variable {d : Draft} {key : String} {list : RuleList} {index : Nat} {text : String} {e : ParseError}

/-- All numbers of the draft are in range. -/
structure NumbersInRange (d : Draft) : Prop where
  share : isShareOfAccount d.share = true
  stopLoss : ∀ x ∈ d.stopLoss, isNonNegative x = true
  takeProfit : ∀ x ∈ d.takeProfit, isNonNegative x = true
  commission : isNonNegative d.commission = true
  slippage : isNonNegative d.slippage = true

/-- A threshold is accepted if it is in range; that zero switches it off makes no difference. -/
theorem exists_threshold_iff {x : Option Float} :
    (∃ y, threshold key x = .ok y) ↔ ∀ a ∈ x, isNonNegative a = true := by
  cases x with
  | none => simp [threshold]
  | some a =>
    rw [threshold]
    split
    -- zero is in range, so nothing is let in by looking for it first
    · rename_i hzero
      simp [isNonNegative_of_eq_zero hzero]
    · unfold nonNegative
      split <;> simp_all [Except.map]

/-- A draft makes a strategy if its numbers are in range and its texts are rules. -/
theorem exists_check_iff :
    (∃ s, d.check = .ok s) ↔ d.NumbersInRange ∧ (∃ r, rules .entry d.entryRules = .ok r) ∧
      ∃ r, rules .exit d.exitRules = .ok r := by
  simp only [check_eq_ok_iff]
  constructor
  · rintro ⟨s, hshare, hstop, htake, hcommission, hslippage, hentry, hexit, -⟩
    exact ⟨⟨hshare, exists_threshold_iff.1 ⟨_, hstop⟩, exists_threshold_iff.1 ⟨_, htake⟩,
      hcommission, hslippage⟩, ⟨_, hentry⟩, _, hexit⟩
  · rintro ⟨hnumbers, ⟨entryRules, hentry⟩, exitRules, hexit⟩
    obtain ⟨stopLoss, hstop⟩ := exists_threshold_iff.2 hnumbers.stopLoss
    obtain ⟨takeProfit, htake⟩ := exists_threshold_iff.2 hnumbers.takeProfit
    exact ⟨⟨d.name, d.description, entryRules, exitRules, stopLoss, takeProfit, d.share,
      ⟨d.commission, d.slippage⟩⟩, hnumbers.share, hstop, htake, hnumbers.commission,
      hnumbers.slippage, hentry, hexit, rfl, rfl, rfl, rfl⟩

theorem shareOfAccount_ne_rule {x : Float} :
    shareOfAccount key x ≠ .error (.rule list index text e) := by
  unfold shareOfAccount
  split <;> simp

theorem nonNegative_ne_rule {x : Float} :
    nonNegative key x ≠ .error (.rule list index text e) := by
  unfold nonNegative
  split <;> simp

theorem threshold_ne_rule {x : Option Float} :
    threshold key x ≠ .error (.rule list index text e) := by
  cases x with
  | none => simp [threshold]
  | some a =>
    unfold threshold nonNegative
    dsimp only
    split
    · simp
    · split <;> simp [Except.map]

/-- A draft is refused for a rule if its numbers are in range, and one of its texts is no rule. -/
theorem check_eq_error_rule_iff :
    d.check = .error (.rule list index text e) ↔ d.NumbersInRange ∧
      (rules .entry d.entryRules = .error (.rule list index text e) ∨
        (∃ r, rules .entry d.entryRules = .ok r) ∧
          rules .exit d.exitRules = .error (.rule list index text e)) := by
  simp only [check, except_bind_eq_error_iff, shareOfAccount_ne_rule, nonNegative_ne_rule,
    threshold_ne_rule, false_or, shareOfAccount_eq_ok_iff, nonNegative_eq_ok_iff]
  constructor
  · rintro ⟨_, ⟨hshare, rfl⟩, _, hstop, _, htake, _, ⟨hcommission, rfl⟩, _, ⟨hslippage, rfl⟩,
      hrules⟩
    refine ⟨⟨hshare, exists_threshold_iff.1 ⟨_, hstop⟩, exists_threshold_iff.1 ⟨_, htake⟩,
      hcommission, hslippage⟩, ?_⟩
    obtain hentry | ⟨entryRules, hentry, hexit | ⟨exitRules, -, hpure⟩⟩ := hrules
    · exact .inl hentry
    · exact .inr ⟨⟨entryRules, hentry⟩, hexit⟩
    · cases hpure
  · rintro ⟨hnumbers, hrules⟩
    obtain ⟨stopLoss, hstop⟩ := exists_threshold_iff.2 hnumbers.stopLoss
    obtain ⟨takeProfit, htake⟩ := exists_threshold_iff.2 hnumbers.takeProfit
    refine ⟨_, ⟨hnumbers.share, rfl⟩, stopLoss, hstop, takeProfit, htake, _,
      ⟨hnumbers.commission, rfl⟩, _, ⟨hnumbers.slippage, rfl⟩, ?_⟩
    obtain hentry | ⟨⟨entryRules, hentry⟩, hexit⟩ := hrules
    · exact .inl hentry
    · exact .inr ⟨entryRules, hentry, .inl hexit⟩

end Draft

/-! ### The numbers of the section -/

namespace Settings

variable {settings : Settings} {key : String}

/-- What is written under the key, if anything, is a number that passes the test. -/
def Passes (settings : Settings) (key : String) (test : Float → Bool) : Prop :=
  ∃ x, settings.optionalFloat "strategy" key = .ok x ∧ ∀ a ∈ x, test a = true

/-- All numbers written in the section are in range. -/
structure NumbersInRange (settings : Settings) : Prop where
  share : settings.Passes "max_position_size" isShareOfAccount
  stopLoss : settings.Passes "stop_loss" isNonNegative
  takeProfit : settings.Passes "take_profit" isNonNegative
  commission : settings.Passes "commission" isNonNegative
  slippage : settings.Passes "slippage" isNonNegative

/-- A setting is read, and then looked at by a check of the numbers that pass a test. -/
theorem optionalFloat_bind_eq_ok_iff {block : String} {look : Option Float → Except Error Unit}
    {test : Float → Bool} (h : ∀ x, look x = .ok () ↔ ∀ a ∈ x, test a = true) :
    settings.optionalFloat block key >>= look = .ok () ↔
      ∃ x, settings.optionalFloat block key = .ok x ∧ ∀ a ∈ x, test a = true := by
  rw [except_bind_eq_ok_iff]
  exact exists_congr fun x ↦ and_congr_right fun _ ↦ h x

theorem checkNonNegative_eq_ok_iff {block : String} :
    settings.checkNonNegative block key = .ok () ↔
      ∃ x, settings.optionalFloat block key = .ok x ∧ ∀ a ∈ x, isNonNegative a = true := by
  refine optionalFloat_bind_eq_ok_iff fun x ↦ ?_
  cases x with
  | none => simp [pure, Except.pure]
  | some a => simp [isOutOfRange_eq_not, pure, Except.pure]

theorem checkShare_eq_ok_iff :
    settings.checkShare "strategy" key = .ok () ↔ settings.Passes key isShareOfAccount := by
  refine optionalFloat_bind_eq_ok_iff fun x ↦ ?_
  cases x with
  | none => simp [pure, Except.pure]
  | some a => simp [pure, Except.pure]

variable {list : RuleList} {index : Nat} {text : String} {e : ParseError}

theorem optionalFloat_ne_rule :
    settings.optionalFloat "strategy" key ≠ .error (.rule list index text e) := by
  unfold optionalFloat
  repeat' split
  all_goals simp

/-- A setting that is read and looked at is not refused for a rule if the check does not do so. -/
theorem optionalFloat_bind_ne_rule {look : Option Float → Except Error Unit}
    (h : ∀ x, look x ≠ .error (.rule list index text e)) :
    settings.optionalFloat "strategy" key >>= look ≠ .error (.rule list index text e) := by
  rw [ne_eq, except_bind_eq_error_iff]
  rintro (hread | ⟨x, -, hlook⟩)
  · exact optionalFloat_ne_rule hread
  · exact h x hlook

theorem checkNonNegative_ne_rule :
    settings.checkNonNegative "strategy" key ≠ .error (.rule list index text e) := by
  refine optionalFloat_bind_ne_rule fun x ↦ ?_
  cases x with
  | none => simp [pure, Except.pure]
  | some a => dsimp only; split <;> simp [pure, Except.pure]

theorem checkShare_ne_rule :
    settings.checkShare "strategy" key ≠ .error (.rule list index text e) := by
  refine optionalFloat_bind_ne_rule fun x ↦ ?_
  cases x with
  | none => simp [pure, Except.pure]
  | some a => dsimp only; split <;> simp [pure, Except.pure]

/-! ### The rules -/

/-- Checking texts is reading them as rules and keeping nothing. -/
theorem checkTexts_eq_map (list : RuleList) (index : Nat) (texts : List String) :
    checkTexts list index texts = (Draft.rulesFrom list index texts).map fun _ ↦ () := by
  induction texts generalizing index with
  | nil => rfl
  | cons text rest ih =>
    rw [checkTexts, Draft.rulesFrom, Rule.parse]
    rcases Expr.parse text with e | expr
    · rfl
    · dsimp only
      rw [ih]
      rcases Draft.rulesFrom list (index + 1) rest with e | rules <;> rfl

theorem checkRules_eq_ok_iff :
    settings.checkRules list key = .ok () ↔
      ∃ r, Draft.rules list (settings.list "strategy" key) = .ok r := by
  rw [checkRules, checkTexts_eq_map, ← Draft.rules]
  rcases Draft.rules list (settings.list "strategy" key) with e | r <;> simp [Except.map]

theorem checkRules_eq_error_iff {error : Error} :
    settings.checkRules list key = .error error ↔
      Draft.rules list (settings.list "strategy" key) = .error error := by
  rw [checkRules, checkTexts_eq_map, ← Draft.rules]
  rcases Draft.rules list (settings.list "strategy" key) with e | r <;> simp [Except.map]

/-! ### The section and its draft -/

theorem numbersInRange_iff_checks : settings.NumbersInRange ↔
    settings.checkShare "strategy" "max_position_size" = .ok () ∧
      settings.checkNonNegative "strategy" "stop_loss" = .ok () ∧
      settings.checkNonNegative "strategy" "take_profit" = .ok () ∧
      settings.checkNonNegative "strategy" "commission" = .ok () ∧
      settings.checkNonNegative "strategy" "slippage" = .ok () := by
  simp only [checkShare_eq_ok_iff, checkNonNegative_eq_ok_iff]
  exact ⟨fun h ↦ ⟨h.share, h.stopLoss, h.takeProfit, h.commission, h.slippage⟩,
    fun ⟨h₁, h₂, h₃, h₄, h₅⟩ ↦ ⟨h₁, h₂, h₃, h₄, h₅⟩⟩

/-- A section passes if its numbers are in range and its texts are rules. -/
theorem checkStrategy_eq_ok_iff : settings.checkStrategy = .ok () ↔ settings.NumbersInRange ∧
    (∃ r, Draft.rules .entry (settings.list "strategy" "entry_rules") = .ok r) ∧
      ∃ r, Draft.rules .exit (settings.list "strategy" "exit_rules") = .ok r := by
  rw [numbersInRange_iff_checks, ← checkRules_eq_ok_iff, ← checkRules_eq_ok_iff]
  simp only [checkStrategy, except_bind_eq_ok_iff, Unique.exists_iff, PUnit.default_eq_unit,
    and_assoc]

/-- A section is refused for a rule if its numbers are in range, and one of its texts is no rule. -/
theorem checkStrategy_eq_error_rule_iff :
    settings.checkStrategy = .error (.rule list index text e) ↔ settings.NumbersInRange ∧
      (Draft.rules .entry (settings.list "strategy" "entry_rules") =
          .error (.rule list index text e) ∨
        (∃ r, Draft.rules .entry (settings.list "strategy" "entry_rules") = .ok r) ∧
          Draft.rules .exit (settings.list "strategy" "exit_rules") =
            .error (.rule list index text e)) := by
  rw [numbersInRange_iff_checks, ← checkRules_eq_ok_iff, ← checkRules_eq_error_iff,
    ← checkRules_eq_error_iff]
  simp only [checkStrategy, except_bind_eq_error_iff, checkShare_ne_rule, checkNonNegative_ne_rule,
    false_or, Unique.exists_iff, PUnit.default_eq_unit, and_assoc]

/-- A number that is left out is in range, as its standard is. -/
theorem getD_passes_iff {test : Float → Bool} {standard : Float} {x : Option Float}
    (h : test standard = true) : test (x.getD standard) = true ↔ ∀ a ∈ x, test a = true := by
  cases x <;> simp [h]

theorem standards_inRange : isShareOfAccount Draft.standardFraction = true ∧
    isNonNegative Costs.standard.commission = true ∧
      isNonNegative Costs.standard.slippage = true := by
  decide +kernel

/-- The numbers of a section are in range exactly if it has a draft whose numbers are. -/
theorem numbersInRange_iff : settings.NumbersInRange ↔
    ∃ d, settings.draft = .ok d ∧ d.NumbersInRange := by
  obtain ⟨hshare, hcommission, hslippage⟩ := standards_inRange
  simp only [draft, except_bind_eq_ok_iff]
  constructor
  · rintro ⟨⟨fraction, hf, hf'⟩, ⟨stopLoss, hs, hs'⟩, ⟨takeProfit, ht, ht'⟩, ⟨commission, hc, hc'⟩,
      slippage, hl, hl'⟩
    refine ⟨_, ⟨stopLoss, hs, takeProfit, ht, fraction, hf, commission, hc, slippage, hl, rfl⟩, ?_⟩
    refine ⟨?_, hs', ht', (getD_passes_iff hcommission).2 hc', (getD_passes_iff hslippage).2 hl'⟩
    cases fraction with
    | none => exact hshare
    | some x => exact hf' x rfl
  · rintro ⟨d, ⟨stopLoss, hs, takeProfit, ht, fraction, hf, commission, hc, slippage, hl, hd⟩,
      hnumbers⟩
    obtain rfl := Except.ok.inj hd
    refine ⟨⟨fraction, hf, fun x hx ↦ ?_⟩, ⟨stopLoss, hs, hnumbers.stopLoss⟩,
      ⟨takeProfit, ht, hnumbers.takeProfit⟩,
      ⟨commission, hc, (getD_passes_iff hcommission).1 hnumbers.commission⟩,
      ⟨slippage, hl, (getD_passes_iff hslippage).1 hnumbers.slippage⟩⟩
    obtain rfl : fraction = some x := hx
    exact hnumbers.share

/-- The texts of a draft are those of the section. -/
theorem lists_of_draft {d : Draft} (h : settings.draft = .ok d) :
    d.entryRules = settings.list "strategy" "entry_rules" ∧
      d.exitRules = settings.list "strategy" "exit_rules" := by
  simp only [draft, except_bind_eq_ok_iff] at h
  obtain ⟨_, -, _, -, _, -, _, -, _, -, hd⟩ := h
  obtain rfl := Except.ok.inj hd
  exact ⟨rfl, rfl⟩

/-- What is to hold of the texts of a section whose numbers are in range can be asked of its
draft. -/
theorem exists_draft_iff (P : List String → List String → Prop) :
    settings.NumbersInRange ∧ P (settings.list "strategy" "entry_rules")
        (settings.list "strategy" "exit_rules") ↔
      ∃ d, settings.draft = .ok d ∧ d.NumbersInRange ∧ P d.entryRules d.exitRules := by
  rw [numbersInRange_iff]
  constructor
  · rintro ⟨⟨d, hd, hnumbers⟩, hlists⟩
    obtain ⟨hentry, hexit⟩ := lists_of_draft hd
    exact ⟨d, hd, hnumbers, by rwa [hentry, hexit]⟩
  · rintro ⟨d, hd, hnumbers, hlists⟩
    obtain ⟨hentry, hexit⟩ := lists_of_draft hd
    exact ⟨⟨d, hd, hnumbers⟩, by rwa [hentry, hexit] at hlists⟩

variable (settings) in
/-- **A strategy section passes exactly if it is a strategy.** It passes if and only if its draft
can be made and is accepted; and it is refused for a text in a rule list if and only if its draft
can be made and is refused for the same text, in the same list, at the same index and with the same
error, which says what is wrong and where. -/
theorem checkStrategy_agrees :
    (settings.checkStrategy = .ok () ↔ ∃ d s, settings.draft = .ok d ∧ d.check = .ok s) ∧
      ∀ list index text e, settings.checkStrategy = .error (.rule list index text e) ↔
        ∃ d, settings.draft = .ok d ∧ d.check = .error (.rule list index text e) := by
  -- both checks come down to numbers in range and to the same question about the two lists
  constructor
  · simp only [exists_and_left, Draft.exists_check_iff, checkStrategy_eq_ok_iff]
    exact exists_draft_iff fun entries exits ↦
      (∃ r, Draft.rules .entry entries = .ok r) ∧ ∃ r, Draft.rules .exit exits = .ok r
  · intro list index text e
    simp only [Draft.check_eq_error_rule_iff, checkStrategy_eq_error_rule_iff]
    exact exists_draft_iff fun entries exits ↦
      Draft.rules .entry entries = .error (.rule list index text e) ∨
        (∃ r, Draft.rules .entry entries = .ok r) ∧
          Draft.rules .exit exits = .error (.rule list index text e)

end Settings

namespace Sample

/-- A section with two entry rules and the given line of exit rules, in which one threshold is a
zero with a sign and one is blank. -/
def ruleSection (exitRules : String) : Settings :=
  .ofEntries [("strategy", "stop_loss", "-0"), ("strategy", "take_profit", " "),
    ("strategy", "max_position_size", "1"),
    ("strategy", "entry_rules", "close > sma_20 | rsi < 30"),
    ("strategy", "exit_rules", exitRules)]

theorem numbersInRange_ruleSection (exitRules : String) :
    (ruleSection exitRules).NumbersInRange :=
  Settings.numbersInRange_iff_checks.2 ⟨rfl, rfl, rfl, rfl, rfl⟩

/-- The entry rules of the section. -/
theorem rules_entry : Draft.rules .entry ["close > sma_20", "rsi < 30"] =
    .ok [⟨"close > sma_20", .compare (.field .close) .gt (.field .sma20)⟩,
      ⟨"rsi < 30", .compare (.field .rsi) .lt (.constant 30)⟩] := by
  have hfirst : Expr.parse "close > sma_20" =
      .ok (.compare (.field .close) .gt (.field .sma20)) := by cbv
  have hsecond : Expr.parse "rsi < 30" = .ok (.compare (.field .rsi) .lt (.constant 30)) :=
    parse_eq_ok_iff.2 (Rule.isRule_text (e := .compare (.field .rsi) .lt (.constant 30))
      (by decide +kernel))
  rw [Draft.rules, Draft.rulesFrom, Draft.rulesFrom, Rule.parse, Rule.parse, hfirst, hsecond]
  rfl

/-- A list with a rule and a comparison that is cut off. -/
theorem rules_exit : Draft.rules .exit ["close < sma_50", "rsi <"] =
    .error (.rule .exit 1 "rsi <" ⟨.missingOperand none, 5⟩) := by
  have hfirst : Expr.parse "close < sma_50" =
      .ok (.compare (.field .close) .lt (.field .sma50)) := by cbv
  have hsecond : Expr.parse "rsi <" = .error ⟨.missingOperand none, 5⟩ := by cbv
  rw [Draft.rules, Draft.rulesFrom, Draft.rulesFrom, Rule.parse, Rule.parse, hfirst, hsecond]
  rfl

end Sample

/-- The sample section passes with one exit rule, so its draft is a strategy. With a second that is
cut off it is refused for that, and so is its draft. -/
theorem Settings.sample_checkStrategy_agrees :
    ((Sample.ruleSection "close < sma_50").checkStrategy = .ok () ∧
      ∃ d s, (Sample.ruleSection "close < sma_50").draft = .ok d ∧ d.check = .ok s) ∧
    (Sample.ruleSection "close < sma_50 | rsi <").checkStrategy =
        .error (.rule .exit 1 "rsi <" ⟨.missingOperand none, 5⟩) ∧
      ∃ d, (Sample.ruleSection "close < sma_50 | rsi <").draft = .ok d ∧
        d.check = .error (.rule .exit 1 "rsi <" ⟨.missingOperand none, 5⟩) := by
  have hpasses : (Sample.ruleSection "close < sma_50").checkStrategy = .ok () :=
    checkStrategy_eq_ok_iff.2 ⟨Sample.numbersInRange_ruleSection _, ⟨_, Sample.rules_entry⟩,
      ⟨[⟨"close < sma_50", .compare (.field .close) .lt (.field .sma50)⟩], by cbv⟩⟩
  have hrefused : (Sample.ruleSection "close < sma_50 | rsi <").checkStrategy =
      .error (.rule .exit 1 "rsi <" ⟨.missingOperand none, 5⟩) :=
    checkStrategy_eq_error_rule_iff.2 ⟨Sample.numbersInRange_ruleSection _,
      .inr ⟨⟨_, Sample.rules_entry⟩, Sample.rules_exit⟩⟩
  exact ⟨⟨hpasses, (checkStrategy_agrees _).1.1 hpasses⟩, hrefused,
    ((checkStrategy_agrees _).2 _ _ _ _).1 hrefused⟩

end BarReplay
