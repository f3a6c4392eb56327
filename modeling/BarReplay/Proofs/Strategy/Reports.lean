import BarReplay.Proofs.Decimal.Zero
import BarReplay.Proofs.Json.Printing
import BarReplay.Proofs.Replay.LastBar
import BarReplay.Proofs.Strategy.Documents
import BarReplay.Report

/-!
# Reports reproduce their strategy

A report is read as the value that was written, whichever of the two spacings it has, because no
value that a report is made of has a text of its own (`Outcome.written_toJson`). What it says of the
strategy is a strategy document: the summary of a strategy is the text of the draft that states all
of its numbers (`Strategy.toDraft`), key for key, and that draft is accepted as the strategy it was
taken from (`Strategy.Accepted.check_toDraft`). A threshold that was switched off is null in the
summary, and null is no threshold.

That numbers survive is not for the format to decide. The reader of numbers rounds more than once,
so the theorem is about strategies whose own five numbers are read back
(`Json.Number.IsReadBack`). That their texts are there at all is due to acceptance, as null stands
for every number that is not finite.
-/

namespace BarReplay

open Json (Value Written)

/-! ### Everything that is written of a run -/

theorem Strategy.written_toJson (s : Strategy Float) : Written s.toJson := by
  have hsources (rules : List (Rule Float)) :
      Written (.array (rules.map fun r ↦ .string r.source)) :=
    .array_map (fun r ↦ .string r.source) rules
  simp [Strategy.toJson, hsources]

theorem Metrics.written_toJson (m : Metrics Float) : Written m.toJson := by
  simp [Metrics.toJson]

theorem ExitReason.written_toJson (r : ExitReason) : Written r.toJson := by
  cases r <;> simp [ExitReason.toJson]

theorem Trade.written_toJson (t : Trade Float) : Written t.toJson := by
  simp [Trade.toJson, Date.toJson, t.reason.written_toJson]

theorem Position.written_toJson (p : Position Float) : Written p.toJson := by
  simp [Position.toJson, Date.toJson]

/-- A report is made of values that can be written, whatever the outcome: an amount that is not
finite is null. -/
theorem Outcome.written_toJson (o : Outcome Float) (s : Strategy Float) :
    Written (o.toJson s) := by
  have htrades := Written.array_map Trade.written_toJson o.trades
  have hequity := Written.array_map Json.written_ofFloat o.equity
  have hposition : Written ((o.position.map Position.toJson).getD .null) := by
    rcases o.position with - | p
    · exact .null
    · exact p.written_toJson
  simp [Outcome.toJson, s.written_toJson, o.metrics.written_toJson, htrades, hequity, hposition]

/-- **A report is the text of its value,** compact or spread over lines. -/
theorem Outcome.isText_report (o : Outcome Float) (s : Strategy Float) (spread : Bool) :
    Json.IsText (o.toJson s) (o.report s spread).toList := by
  obtain ⟨hcompact, hspread⟩ := (o.written_toJson s).isText_both
  rw [report]
  split
  · exact hspread
  · exact hcompact

/-! ### Drafts as objects -/

/-- The number is read back from the text that a report has for it. -/
def Json.Number.IsReadBack (x : Float) : Prop :=
  Json.Number.read? (Decimal.Layout.report.finite x) = some x

instance (x : Float) : Decidable (Json.Number.IsReadBack x) :=
  inferInstanceAs (Decidable (_ = _))

open Json.Number (IsReadBack)

theorem toFloat?_ofFloat {x : Float} (h : x.isFinite = true ∧ IsReadBack x) :
    (Value.ofFloat x).toFloat? = some x := by
  rw [Value.ofFloat, if_pos h.1]
  exact h.2

theorem toOptionalFloat?_ofFloat {x : Float} (h : x.isFinite = true ∧ IsReadBack x) :
    (Value.ofFloat x).toOptionalFloat? = some (some x) := by
  have hread := toFloat?_ofFloat h
  rw [Value.ofFloat, if_pos h.1] at hread ⊢
  show (Value.number _).toFloat?.map some = some (some x)
  rw [hread, Option.map_some]

theorem toOptionalFloat?_ofOptionalFloat {x : Option Float}
    (h : ∀ a ∈ x, a.isFinite = true ∧ IsReadBack a) :
    (Value.ofOptionalFloat x).toOptionalFloat? = some x := by
  cases x with
  | none => rfl
  | some a => exact toOptionalFloat?_ofFloat (h a rfl)

theorem isSound_ofFloat {x : Float} (h : x.isFinite = true ∧ IsReadBack x) (depth : Nat) :
    (Value.ofFloat x).isSound depth = true := by
  have hread := toFloat?_ofFloat h
  rw [Value.ofFloat, if_pos h.1] at hread ⊢
  rw [Value.isSound, hread, Option.isSome_some]

theorem isSound_ofOptionalFloat {x : Option Float}
    (h : ∀ a ∈ x, a.isFinite = true ∧ IsReadBack a) (depth : Nat) :
    (Value.ofOptionalFloat x).isSound depth = true := by
  cases x with
  | none => simp [Value.ofOptionalFloat, Value.isSound]
  | some a => exact isSound_ofFloat (h a rfl) depth

theorem isSound_string (text : String) (depth : Nat) :
    (Value.string text).isSound depth = true := by
  simp [Value.isSound]

theorem isSound_object (entries : List (String × Value)) (depth : Nat) :
    (Value.object entries).isSound (depth + 1) = entries.all fun e ↦ e.2.isSound depth := by
  rw [Value.isSound]
  induction entries with
  | nil => rfl
  | cons e entries ih => rw [Value.areSoundEntries, ih, List.all_cons]

theorem isSound_texts (texts : List String) (depth : Nat) :
    (Value.array (texts.map .string)).isSound (depth + 1) = true := by
  rw [Value.isSound, areSound_eq_all, List.all_map, List.all_eq_true]
  exact fun text _ ↦ isSound_string text depth

theorem toTexts?_texts (texts : List String) :
    (Value.array (texts.map .string)).toTexts? = some texts := by
  induction texts with
  | nil => rfl
  | cons text texts ih =>
    have htail : (texts.map Value.string).mapM Value.toText? = some texts := ih
    rw [List.map_cons, Value.toTexts?, List.mapM_cons, htail]
    rfl

/-- The nested share of the account is what its object, or null, is read as. -/
theorem Allocation.ofOptionalJson?_toJson {a : Allocation}
    (h : ∀ x ∈ a.fraction, x.isFinite = true ∧ IsReadBack x) :
    Allocation.ofOptionalJson? a.toJson = some (some a) := by
  have hfraction := toOptionalFloat?_ofOptionalFloat h
  simp [ofOptionalJson?, toJson, ofJson?, Value.record?, Value.keyed?, Value.entry?, hfraction]

namespace Draft

/-- The numbers that a draft states. -/
def numbers (d : Draft) : List Float :=
  d.stopLoss.toList ++ d.takeProfit.toList ++ d.fraction.toList ++
    (d.allocation.bind Allocation.fraction).toList ++ [d.commission, d.slippage]

theorem forall_mem_numbers {d : Draft} {p : Float → Prop} : (∀ x ∈ d.numbers, p x) ↔
    (∀ x ∈ d.stopLoss, p x) ∧ (∀ x ∈ d.takeProfit, p x) ∧ (∀ x ∈ d.fraction, p x) ∧
      (∀ a ∈ d.allocation, ∀ x ∈ a.fraction, p x) ∧ p d.commission ∧ p d.slippage := by
  rw [numbers]
  simp only [List.forall_mem_append, List.forall_mem_cons, Option.mem_toList]
  rcases d.allocation with - | a <;> simp [and_assoc]

/-- The value under each key of the object of a draft is what was written there. -/
theorem ofJson?_toJson_eq (d : Draft) : ofJson? d.toJson = (do
    let entryRules ← (Value.array (d.entryRules.map .string)).toTexts?
    let exitRules ← (Value.array (d.exitRules.map .string)).toTexts?
    let stopLoss ← (Value.ofOptionalFloat d.stopLoss).toOptionalFloat?
    let takeProfit ← (Value.ofOptionalFloat d.takeProfit).toOptionalFloat?
    let fraction ← (Value.ofOptionalFloat d.fraction).toOptionalFloat?
    let allocation ← (d.allocation.map Allocation.toJson).elim (some none)
      Allocation.ofOptionalJson?
    let commission ← (Value.ofFloat d.commission).toFloat?
    let slippage ← (Value.ofFloat d.slippage).toFloat?
    some ⟨d.name, d.description, entryRules, exitRules, stopLoss, takeProfit, fraction, allocation,
      commission, slippage⟩) := by
  obtain ⟨name, description, entryRules, exitRules, stopLoss, takeProfit, fraction, - | a,
    commission, slippage⟩ := d <;> rfl

/-- **A draft is what its object is read as,** if its numbers are read back. -/
theorem ofJson?_toJson {d : Draft} (h : ∀ x ∈ d.numbers, x.isFinite = true ∧ IsReadBack x) :
    ofJson? d.toJson = some d := by
  obtain ⟨hstop, htake, hfraction, hallocation, hcommission, hslippage⟩ := forall_mem_numbers.1 h
  have hnested : (d.allocation.map Allocation.toJson).elim (some none)
      Allocation.ofOptionalJson? = some d.allocation := by
    rcases hd : d.allocation with - | a
    · rfl
    · exact Allocation.ofOptionalJson?_toJson (hallocation a hd)
  rw [ofJson?_toJson_eq, toTexts?_texts, toTexts?_texts, toOptionalFloat?_ofOptionalFloat hstop,
    toOptionalFloat?_ofOptionalFloat htake, toOptionalFloat?_ofOptionalFloat hfraction, hnested,
    toFloat?_ofFloat hcommission, toFloat?_ofFloat hslippage]
  rfl

/-- The object of a draft is a sound value, if the numbers of the draft are read back. -/
theorem isSound_toJson {d : Draft} (h : ∀ x ∈ d.numbers, x.isFinite = true ∧ IsReadBack x) :
    d.toJson.isSound Value.depthLimit = true := by
  obtain ⟨hstop, htake, hfraction, hallocation, hcommission, hslippage⟩ := forall_mem_numbers.1 h
  have hstop := isSound_ofOptionalFloat hstop
  have htake := isSound_ofOptionalFloat htake
  have hfraction := isSound_ofOptionalFloat hfraction
  have hcommission := isSound_ofFloat hcommission
  have hslippage := isSound_ofFloat hslippage
  obtain ⟨name, description, entryRules, exitRules, stopLoss, takeProfit, fraction, - | a,
    commission, slippage⟩ := d
  · simp [toJson, Value.depthLimit, isSound_object, isSound_string, isSound_texts, hstop, htake,
      hfraction, hcommission, hslippage]
  · have hnested := isSound_ofOptionalFloat (hallocation a rfl)
    simp [toJson, Allocation.toJson, Value.depthLimit, isSound_object, isSound_string,
      isSound_texts, hstop, htake, hfraction, hcommission, hslippage, hnested]

/-- A threshold that was accepted is accepted as it is: one that was switched off stays off. -/
theorem threshold_of_accepted {key : String} {x y : Option Float} (h : threshold key x = .ok y) :
    threshold key y = .ok y := by
  rw [threshold_eq_ok_iff] at h ⊢
  obtain ⟨hrange, rfl⟩ := h
  refine ⟨fun a ha ↦ hrange a (Option.filter_eq_some_iff.1 ha).1, ?_⟩
  rw [Option.filter_filter]
  simp

/-- The rules of a list are what their own texts are. -/
theorem rules_sources {list : RuleList} {texts : List String} {rs : List (Rule Float)}
    (h : rules list texts = .ok rs) : rules list (rs.map Rule.source) = .ok rs := by
  have hsources : rs.map Rule.source = texts := by
    have hparse : texts.map Rule.parse = rs.map .ok := rulesFrom_eq_ok_iff.1 h
    clear h
    induction texts generalizing rs with
    | nil => rw [List.map_eq_nil_iff.1 hparse.symm, List.map_nil]
    | cons text texts ih =>
      obtain - | ⟨r, rs⟩ := rs
      · cases hparse
      · rw [List.map_cons, List.map_cons, List.cons.injEq] at hparse
        rw [List.map_cons, Rule.source_of_parse hparse.1, ih hparse.2]
  rw [hsources, h]

end Draft

/-! ### The draft of a strategy -/

namespace Strategy

/-- The draft that writes down a strategy, with all of its numbers stated. -/
def toDraft (s : Strategy Float) : Draft :=
  { name := s.name
    description := s.description
    entryRules := s.entryRules.map Rule.source
    exitRules := s.exitRules.map Rule.source
    stopLoss := s.stopLoss
    takeProfit := s.takeProfit
    fraction := some s.fraction
    allocation := none
    commission := s.costs.commission
    slippage := s.costs.slippage }

/-- What a report says of a strategy is the draft that writes it down. -/
theorem toJson_toDraft (s : Strategy Float) : s.toDraft.toJson = s.toJson := by
  simp [toDraft, toJson, Draft.toJson, Value.ofOptionalFloat, Function.comp_def]

/-- **The draft of an accepted strategy is accepted as that strategy.** -/
theorem Accepted.check_toDraft {s : Strategy Float} (h : s.Accepted) :
    s.toDraft.check = .ok s := by
  obtain ⟨d, hd⟩ := h
  obtain ⟨hshare, hstop, htake, hcommission, hslippage, hentry, hexit, -, -, hfraction, hcosts⟩ :=
    Draft.check_eq_ok_iff.1 hd
  refine Draft.check_eq_ok_iff.2 ⟨?_, Draft.threshold_of_accepted hstop,
    Draft.threshold_of_accepted htake, ?_, ?_, Draft.rules_sources hentry,
    Draft.rules_sources hexit, rfl, rfl, rfl, rfl⟩
  · show isShareOfAccount s.fraction = true
    rw [hfraction]
    exact hshare
  · show isNonNegative s.costs.commission = true
    rw [hcosts]
    exact hcommission
  · show isNonNegative s.costs.slippage = true
    rw [hcosts]
    exact hslippage

theorem numbers_toDraft (s : Strategy Float) : s.toDraft.numbers =
    s.stopLoss.toList ++ s.takeProfit.toList ++
      [s.fraction, s.costs.commission, s.costs.slippage] := by
  simp [Draft.numbers, toDraft]

/-- The numbers of an accepted strategy are finite. -/
theorem Accepted.isFinite_numbers {s : Strategy Float} (h : s.Accepted) :
    ∀ x ∈ s.toDraft.numbers, x.isFinite = true := by
  obtain ⟨d, hd⟩ := h
  obtain ⟨hshare, hstop, htake, hcommission, hslippage, -, -, -, -, hfraction, hcosts⟩ :=
    Draft.check_eq_ok_iff.1 hd
  have hthreshold {key : String} {x y : Option Float} (hy : Draft.threshold key x = .ok y) :
      ∀ a ∈ y.toList, a.isFinite = true := by
    obtain ⟨hrange, rfl⟩ := Draft.threshold_eq_ok_iff.1 hy
    intro a ha
    obtain ⟨ha, hne⟩ := Option.filter_eq_some_iff.1 (Option.mem_toList.1 ha)
    exact isFinite_of_isNonNegative (hrange a ha (by simpa using hne))
  rw [numbers_toDraft, hfraction, hcosts]
  simp only [List.forall_mem_append, List.forall_mem_cons]
  exact ⟨⟨hthreshold hstop, hthreshold htake⟩, isFinite_of_isShareOfAccount hshare,
    isFinite_of_isNonNegative hcommission, isFinite_of_isNonNegative hslippage, nofun⟩

end Strategy

namespace Draft

/-- The text of a draft, or any other text of its object, is a document with that draft. -/
theorem readDocument_toJson {d : Draft} (h : ∀ x ∈ d.numbers, x.isFinite = true ∧ IsReadBack x)
    {text : String} (htext : Json.IsText d.toJson text.toList) : readDocument text = .ok [d] := by
  have hlist : listOfJson? d.toJson = some [d] := by
    rw [toJson, listOfJson?_object, ← toJson, ofJson?_toJson h]
    rfl
  rw [readDocument_of_isText htext, if_pos (isSound_toJson h), hlist]
  rfl

end Draft

/-- The report is an object, with the strategy under its key. -/
theorem Outcome.exists_entries (o : Outcome Float) (s : Strategy Float) :
    ∃ entries, o.toJson s = .object entries ∧
      Value.entry? entries "strategy" = some (some s.toJson) :=
  ⟨_, rfl, rfl⟩

/-- **A report reproduces its strategy.** Both texts of the report are texts of one object. The
value under its key `strategy` is a draft, and that draft is accepted as the strategy, every rule,
number and switched-off threshold as it was. Written out by itself, the value is a strategy document
with that one draft. -/
theorem Strategy.report_reproduces {s : Strategy Float} (hs : s.Accepted)
    (hnumbers : ∀ x ∈ s.toDraft.numbers, IsReadBack x) (o : Outcome Float) :
    ∃ entries v d,
      (∀ spread, Json.IsText (.object entries) (o.report s spread).toList ∧
        Value.read? (o.report s spread) = some (.object entries)) ∧
      Value.entry? entries "strategy" = some (some v) ∧
      Draft.ofJson? v = some d ∧ d.check = .ok s ∧
      Draft.readDocument v.compact = .ok [d] ∧ Draft.readDocument v.spread = .ok [d] := by
  obtain ⟨entries, hreport, hentry⟩ := o.exists_entries s
  have hread : ∀ x ∈ s.toDraft.numbers, x.isFinite = true ∧ IsReadBack x :=
    fun x hx ↦ ⟨hs.isFinite_numbers x hx, hnumbers x hx⟩
  obtain ⟨hcompact, hspread⟩ := s.written_toJson.isText_both
  rw [← s.toJson_toDraft] at hentry hcompact hspread
  refine ⟨entries, s.toDraft.toJson, s.toDraft, fun spread ↦ ?_, hentry, Draft.ofJson?_toJson hread,
    hs.check_toDraft, Draft.readDocument_toJson hread hcompact,
    Draft.readDocument_toJson hread hspread⟩
  have htext := o.isText_report s spread
  rw [hreport] at htext
  exact ⟨htext, Draft.read?_of_isText htext⟩

namespace Sample

/-- A strategy with a name that has to be escaped and no take-profit. -/
def quotedStrategy : Strategy Float :=
  { strategy with name := "\"RSI\" \\ reversal\n\x01 α", takeProfit := none }

/-- The strategy is accepted, also with a take-profit that is switched off. -/
theorem quotedStrategy_accepted : quotedStrategy.Accepted := by
  obtain ⟨hshare, hstop, -, hcommission, hslippage, hentry, hexit, -⟩ :=
    Draft.check_eq_ok_iff.1 draft_check
  exact ⟨{ draft with name := quotedStrategy.name, takeProfit := some 0 },
    Draft.check_eq_ok_iff.2 ⟨hshare, hstop, by decide +kernel, hcommission, hslippage, hentry,
      hexit, rfl, rfl, rfl, rfl⟩⟩

end Sample

/-- The report on the sample run has a strategy with an escaped name and without a take-profit, and
reproduces it. -/
theorem Strategy.sample_report_reproduces :
    ∃ entries v d,
      (∀ spread, Json.IsText (.object entries)
          (Sample.outcome.report Sample.quotedStrategy spread).toList ∧
        Value.read? (Sample.outcome.report Sample.quotedStrategy spread) =
          some (.object entries)) ∧
      Value.entry? entries "strategy" = some (some v) ∧
      Draft.ofJson? v = some d ∧ d.check = .ok Sample.quotedStrategy ∧
      Draft.readDocument v.compact = .ok [d] ∧ Draft.readDocument v.spread = .ok [d] :=
  report_reproduces Sample.quotedStrategy_accepted (by decide +kernel) Sample.outcome

end BarReplay
