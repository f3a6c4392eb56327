import BarReplay.Proofs.Replay.History
import BarReplay.Proofs.Rule.Alternatives

/-!
# Lists of rules are disjunctions

A run asks of its entry rules only whether one of them holds, so restating them changes nothing. Of
its exit rules it also reports which one was the first to hold; restating them changes this number
and nothing else, because the position is sold at the close whatever the number is
(`Strategy.replay_restated`).

The two runs are followed from bar to bar at once. What is left out of the comparison is a map `f`
on the reasons for selling: nothing at all for entry rules, and the numbers of rules for exit rules.
Two strategies that are alike up to `f` have the same days up to `f` (`Strategy.Alike.days`).
-/

namespace BarReplay

variable {α : Type}

/-! ### Reasons -/

/-- The reason without the number of the rule. -/
def ExitReason.unnumbered : ExitReason → ExitReason
  | stopLoss => stopLoss
  | takeProfit => takeProfit
  | rule _ => rule 0

/-- The trade with another reason. -/
def Trade.relabel (f : ExitReason → ExitReason) (t : Trade α) : Trade α :=
  { t with reason := f t.reason }

/-- The day with another reason for the trade. -/
def Day.relabel (f : ExitReason → ExitReason) (d : Day α) : Day α :=
  { d with closed := d.closed.map (Trade.relabel f) }

@[simp]
theorem Day.standing_relabel (f : ExitReason → ExitReason) (d : Day α) :
    (d.relabel f).standing = d.standing :=
  rfl

/-- The report with other reasons, and with all else as it is. -/
def Outcome.relabel (f : ExitReason → ExitReason) (o : Outcome α) : Outcome α :=
  { o with trades := o.trades.map (Trade.relabel f) }

@[simp]
theorem Outcome.relabel_id : (Outcome.relabel id : Outcome α → Outcome α) = id := by
  funext o
  show { o with trades := o.trades.map id } = o
  rw [List.map_id]

variable [Arithmetic α]

/-- The report on relabelled days is the relabelled report: its figures are taken from the values of
the account and from profits, and none from a reason. -/
theorem Outcome.ofDays_relabel (f : ExitReason → ExitReason) (days : List (Day α)) :
    Outcome.ofDays (days.map (Day.relabel f)) = (Outcome.ofDays days).relabel f := by
  have hequity : (days.map (Day.relabel f)).map Day.equity = days.map Day.equity :=
    List.map_map
  have htrades : (days.map (Day.relabel f)).filterMap Day.closed =
      (days.filterMap Day.closed).map (Trade.relabel f) := by
    rw [List.filterMap_map, List.map_filterMap]
    rfl
  have hprofits : ((days.filterMap Day.closed).map (Trade.relabel f)).map Trade.profit =
      (days.filterMap Day.closed).map Trade.profit := List.map_map
  have hposition : ((days.map (Day.relabel f)).getLast?.bind fun d ↦ d.standing.position) =
      days.getLast?.bind fun d ↦ d.standing.position := by
    rw [List.getLast?_map, Option.bind_map]
    rfl
  simp only [Outcome.ofDays, relabel, hequity, htrades, hprofits, hposition, List.length_map]

namespace Strategy

/-- The strategies enter together and leave together, for the same reason up to `f`, and commit and
pay the same. -/
structure Alike (f : ExitReason → ExitReason) (s s' : Strategy α) : Prop where
  enters : s'.enters = s.enters
  exit : ∀ (p : Position α) (bar : Bar α), (s'.exit? p bar).map f = (s.exit? p bar).map f
  fraction : s'.fraction = s.fraction
  costs : s'.costs = s.costs

namespace Alike

variable {f : ExitReason → ExitReason} {s s' : Strategy α} (h : s.Alike f s')

include h

/-- One bar, from the same standing. -/
theorem advance (costs : Costs α) (index : Nat) (bar : Bar α) (before : Standing α) :
    (s'.advance costs index bar before).relabel f =
      (s.advance costs index bar before).relabel f := by
  rcases hbefore : before.position with - | p
  · simp only [Strategy.advance, hbefore, h.enters, h.fraction]
  -- a sale is the same for every reason, but for the reason that is written on the trade
  have hsale (reason : ExitReason) :
      Day.relabel f ⟨bar, (before.sell p costs index bar reason).2,
          some (before.sell p costs index bar reason).1⟩ =
        ⟨bar, (before.sell p costs index bar (f reason)).2,
          some (before.sell p costs index bar (f reason)).1⟩ := rfl
  have hexit := h.exit p bar
  simp only [Strategy.advance, hbefore]
  rcases hreason : s.exit? p bar with - | reason
  · rw [hreason, Option.map_none, Option.map_eq_none_iff] at hexit
    rw [hexit]
  · rw [hreason] at hexit
    obtain ⟨reason', hreason', hf⟩ := Option.map_eq_some_iff.1 hexit
    rw [hreason']
    exact (hsale reason').trans (hf ▸ (hsale reason).symm)

/-- The bars of a run from one on, from the same standing. -/
theorem daysFrom (costs : Costs α) (index : Nat) (before : Standing α) (bars : List (Bar α)) :
    (s'.daysFrom costs index before bars).map (Day.relabel f) =
      (s.daysFrom costs index before bars).map (Day.relabel f) := by
  induction bars generalizing index before with
  | nil => rfl
  | cons bar rest ih =>
    have hday := h.advance costs index bar before
    have hstanding : (s'.advance costs index bar before).standing =
        (s.advance costs index bar before).standing := by
      simpa using congrArg Day.standing hday
    simp only [Strategy.daysFrom, List.map_cons, hday, hstanding, ih]

/-- **Strategies that are alike have the same days**, up to the reasons on the trades. -/
theorem days (costs : Costs α) (capital : α) (bars : List (Bar α)) :
    (s'.days costs capital bars).map (Day.relabel f) =
      (s.days costs capital bars).map (Day.relabel f) := by
  cases bars with
  | nil => rfl
  | cons first rest => simp only [Strategy.days, List.map_cons, h.daysFrom]

/-- Strategies that are alike have the same result, up to the reasons on the trades, or the same
error. -/
theorem replay (terms : Terms α) (bars : List (Bar α)) (cancelled : Bool) :
    (s'.replay terms bars cancelled).map (Outcome.relabel f) =
      (s.replay terms bars cancelled).map (Outcome.relabel f) := by
  have hsettle : terms.settle s' = terms.settle s := by
    rw [Terms.settle, Terms.settle, Terms.costsFor, Terms.costsFor, h.costs]
  rw [Strategy.replay, Strategy.replay, hsettle]
  rcases terms.settle s with error | ⟨capital, costs⟩
  · rfl
  · rcases barsError? cancelled bars with - | error
    · show Except.ok _ = Except.ok _
      rw [← Outcome.ofDays_relabel, ← Outcome.ofDays_relabel, h.days]
    · rfl

end Alike

/-! ### Restated rules -/

section Restated

variable {s : Strategy α} {rules : List (Rule α)}

/-- A strategy with its entry rules restated enters when it entered before. -/
theorem alike_of_entryRules (h : Rule.Restates s.entryRules rules) :
    s.Alike id { s with entryRules := rules } where
  enters := funext fun reading ↦ congrFun (Rule.anyHolds_of_restates h) reading
  exit _ _ := rfl
  fraction := rfl
  costs := rfl

/-- Without the number of the rule, a reason to leave is a threshold or that some rule holds. -/
theorem exit?_unnumbered (s : Strategy α) (p : Position α) (bar : Bar α) :
    (s.exit? p bar).map ExitReason.unnumbered =
      if p.hitsStopLoss bar.close s.stopLoss then some .stopLoss
      else if p.hitsTakeProfit bar.close s.takeProfit then some .takeProfit
      else if Rule.anyHolds s.exitRules bar.reading then some (.rule 0) else none := by
  rw [exit?, Rule.anyHolds]
  split_ifs with hstop htake hrule
  · rfl
  · rfl
  · obtain ⟨k, hk⟩ := Option.isSome_iff_exists.1 hrule
    rw [hk]
    rfl
  · rw [Option.not_isSome_iff_eq_none.1 hrule]
    rfl

/-- A strategy with its exit rules restated leaves when it left before. -/
theorem alike_of_exitRules (h : Rule.Restates s.exitRules rules) :
    s.Alike ExitReason.unnumbered { s with exitRules := rules } where
  enters := rfl
  exit p bar := by
    rw [exit?_unnumbered, exit?_unnumbered, Rule.anyHolds_of_restates h]
  fraction := rfl
  costs := rfl

end Restated

/-- **Lists of rules are disjunctions.** Restating the entry rules of a strategy leaves the result
of every run as it is. Restating its exit rules leaves everything but the numbers of rules on the
trades: the figures, the values of the account, the open position, what was bought and sold and at
which price, and which trades were closed at a threshold. Rules are restated by changing their order
and number, and by joining them in one disjunction, be it as trees or as texts. -/
theorem replay_restated (s : Strategy Float) (terms : Terms Float) (bars : List (Bar Float))
    (cancelled : Bool) :
    (∀ rules, Rule.Restates s.entryRules rules →
        { s with entryRules := rules }.replay terms bars cancelled =
          s.replay terms bars cancelled) ∧
      (∀ rules, Rule.Restates s.exitRules rules →
        ({ s with exitRules := rules }.replay terms bars cancelled).map
            (Outcome.relabel ExitReason.unnumbered) =
          (s.replay terms bars cancelled).map (Outcome.relabel ExitReason.unnumbered)) ∧
      ∀ (first : Rule Float) (rest : List (Rule Float)),
        (∀ source, Rule.Restates (first :: rest)
          [⟨source, Expr.anyOf first.expr (rest.map Rule.expr)⟩]) ∧
        ((∀ r ∈ first :: rest, Rule.parse r.source = .ok r) →
          ∃ r, Rule.parse (Rule.joinedSource first rest) = .ok r ∧
            Rule.Restates (first :: rest) [r]) := by
  refine ⟨fun rules h ↦ ?_, fun rules h ↦ ?_, fun first rest ↦ ⟨fun source ↦ ?_, fun h ↦ ?_⟩⟩
  · have hreplay := (alike_of_entryRules h).replay terms bars cancelled
    rwa [Outcome.relabel_id, Except.map_id, id, id] at hreplay
  · exact (alike_of_exitRules h).replay terms bars cancelled
  · exact Rule.restates_anyOf source first rest
  · exact Rule.exists_parse_joinedSource h

end Strategy

namespace Sample

/-- The sample strategy with a rule before its exit rule that never holds. -/
def hesitant : Strategy Float :=
  { strategy with exitRules := ⟨"false", .literal false⟩ :: strategy.exitRules }

end Sample

/-- The sample run with its entry rule stated twice, with its exit rules the other way round, and
with the texts of two rules joined. -/
theorem Strategy.sample_replay_restated :
    { Sample.strategy with
        entryRules := Sample.strategy.entryRules ++ Sample.strategy.entryRules }.replay
          Sample.terms Sample.bars false = .ok Sample.outcome ∧
      ({ Sample.hesitant with exitRules := Sample.hesitant.exitRules.reverse }.replay
          Sample.terms Sample.bars false).map (Outcome.relabel ExitReason.unnumbered) =
        (Sample.hesitant.replay Sample.terms Sample.bars false).map
          (Outcome.relabel ExitReason.unnumbered) ∧
      (Outcome.ofDays (Sample.hesitant.history Sample.terms Sample.bars)).trades.map Trade.reason =
        [.rule 1, .stopLoss] ∧
      ∃ r, Rule.parse "true or false" = .ok r ∧
        Rule.Restates [⟨"true", .literal true⟩, ⟨"false", .literal false⟩] [r] := by
  obtain ⟨hentry, -, hjoined⟩ := replay_restated Sample.strategy Sample.terms Sample.bars false
  obtain ⟨-, hexit, -⟩ := replay_restated Sample.hesitant Sample.terms Sample.bars false
  refine ⟨?_, hexit _ (.rearranged fun r ↦ List.mem_reverse), by decide +kernel, ?_⟩
  · have htwice := hentry (Sample.strategy.entryRules ++ Sample.strategy.entryRules)
      (.rearranged fun r ↦ by rw [List.mem_append, or_self])
    exact htwice.trans Sample.run_eq
  · refine (hjoined ⟨"true", .literal true⟩ [⟨"false", .literal false⟩]).2 fun r hr ↦ ?_
    rw [Rule.parse_eq_ok_iff_isRule]
    have hread : r.expr.text = r.source ∧ r.expr.IsReadable := by
      rcases List.mem_pair.1 hr with rfl | rfl <;> exact ⟨rfl, trivial⟩
    exact ⟨rfl, hread.1 ▸ Rule.isRule_text hread.2⟩

end BarReplay
