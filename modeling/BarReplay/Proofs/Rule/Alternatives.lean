import BarReplay.Proofs.Rule.Canonical
import BarReplay.Proofs.Rule.Extent
import BarReplay.Strategy.Basic

/-!
# Alternatives

A disjunction holds exactly if one of its alternatives does, although the three values of a
disjunction are not those of its alternatives one by one: an alternative that is undecided leaves
the disjunction undecided where no other is true, and neither of the two holds
(`Expr.holds_eq_any`). So a list of rules holds exactly if one of the alternatives of its rules
does, and neither their order nor their number matters, nor whether they stand in one rule or in
several (`Rule.anyHolds_of_restates`).

What joins rules as trees also joins them as texts: the texts of rules with `or` between them are
the text of a rule with the alternatives of all of them (`Rule.exists_parse_joinedSource`).
-/

namespace BarReplay

variable {α : Type}

/-- What a tree joins by `or`, from left to right. A tree that is no disjunction is its only
alternative. -/
def Expr.alternatives : Expr α → List (Expr α)
  | or left right => left.alternatives ++ right.alternatives
  | e => [e]

/-- The disjunction of one tree and more of them, which leans to the left. -/
def Expr.anyOf (first : Expr α) (rest : List (Expr α)) : Expr α :=
  rest.foldl .or first

namespace Rule

/-- The alternatives of all the rules, in order. -/
def alternatives (rules : List (Rule α)) : List (Expr α) :=
  rules.flatMap fun r ↦ r.expr.alternatives

/-- The texts of one rule and more of them, with `or` between them. -/
def joinedSource (first : Rule α) : List (Rule α) → String
  | [] => first.source
  | next :: rest => first.source ++ " or " ++ joinedSource next rest

/-- A list of rules that says the same as another one: it has the same rules in any order and
number, or it is a single rule with the alternatives of all of them, however they are bracketed. -/
inductive Restates (rules : List (Rule α)) : List (Rule α) → Prop where
  | rearranged {rules' : List (Rule α)} (same : ∀ r, r ∈ rules' ↔ r ∈ rules) :
      Restates rules rules'
  | joined {r : Rule α} (parts : r.expr.alternatives = alternatives rules) : Restates rules [r]

end Rule

theorem Expr.alternatives_anyOf (first : Expr α) (rest : List (Expr α)) :
    (anyOf first rest).alternatives = first.alternatives ++ rest.flatMap alternatives := by
  induction rest generalizing first with
  | nil => exact (List.append_nil _).symm
  | cons next rest ih =>
    show (anyOf (.or first next) rest).alternatives = _
    rw [ih, alternatives, List.flatMap_cons, List.append_assoc]

/-- The left-leaning disjunction of rules joins them, whatever its text is. -/
theorem Rule.restates_anyOf (source : String) (first : Rule α) (rest : List (Rule α)) :
    Restates (first :: rest) [⟨source, Expr.anyOf first.expr (rest.map Rule.expr)⟩] := by
  refine .joined ?_
  show (Expr.anyOf _ _).alternatives = _
  rw [Expr.alternatives_anyOf, List.flatMap_map]
  rfl

/-! ### Truth -/

section Truth

variable [Arithmetic α]

/-- A disjunction holds if one side does. If a side is undecided this takes the other side alone. -/
theorem Truth.getD_or (a b : Truth) : (a.or b).getD false = (a.getD false || b.getD false) := by
  match a, b with
  | some true, _ => rfl
  | some false, _ => rfl
  | none, some true => rfl
  | none, some false => rfl
  | none, none => rfl

/-- **A tree holds exactly if one of its alternatives does.** -/
theorem Expr.holds_eq_any (e : Expr α) (reading : Reading α) :
    e.holds reading = e.alternatives.any (·.holds reading) := by
  induction e with
  | or left right ihl ihr =>
    rw [alternatives, List.any_append, ← ihl, ← ihr]
    exact Truth.getD_or _ _
  | literal | compare | and | not => exact (Bool.or_false _).symm

/-- A list of rules holds exactly if one of all its alternatives does. -/
theorem Rule.anyHolds_eq_any (rules : List (Rule α)) (reading : Reading α) :
    anyHolds rules reading = (alternatives rules).any (·.holds reading) := by
  rw [anyHolds, firstHolding?, List.findIdx?_isSome, alternatives, List.any_flatMap]
  exact congrArg rules.any (funext fun r ↦ r.expr.holds_eq_any reading)

/-- **A list of rules that is restated holds where it held before.** -/
theorem Rule.anyHolds_of_restates {rules rules' : List (Rule α)} (h : Restates rules rules') :
    anyHolds rules' = anyHolds rules := by
  funext reading
  rw [anyHolds_eq_any, anyHolds_eq_any]
  cases h with
  | rearranged same =>
    rw [Bool.eq_iff_iff, List.any_eq_true, List.any_eq_true]
    simp only [alternatives, List.mem_flatMap, same]
  | joined parts => rw [alternatives, List.flatMap_singleton, parts]

end Truth

/-! ### Texts -/

namespace Rule

/-- A chain goes on with another chain after `or`, as one chain with the alternatives of both. -/
theorem Derives.or_chain {phrase : Phrase} {cs' rest : List Char} {right : Expr Float}
    (h : Derives phrase cs' right rest) (hphrase : phrase = .disjunction) {cs between : List Char}
    {left : Expr Float} (first : Derives .disjunction cs left between)
    (word : Keyword "or" between cs') :
    ∃ e, Derives .disjunction cs e rest ∧
      e.alternatives = left.alternatives ++ right.alternatives := by
  induction h with
  | or _ word' second hfirst _ =>
    obtain ⟨e, hderives, he⟩ := hfirst hphrase word
    refine ⟨.or e _, .or hderives word' second, ?_⟩
    rw [Expr.alternatives, he, Expr.alternatives, List.append_assoc]
  | single only _ => exact ⟨.or left _, .or first word only, rfl⟩
  | and | lone | not | brackets | true | false | compare => cases hphrase

/-- Two texts of rules with `or` between them are the text of a rule. -/
theorem IsRule.or {cs cs' : List Char} {left right : Expr Float} (h : IsRule cs left)
    (h' : IsRule cs' right) :
    ∃ e, IsRule (cs ++ " or ".toList ++ cs') e ∧
      e.alternatives = left.alternatives ++ right.alternatives := by
  obtain ⟨blanks, hblank, hleft⟩ := h
  obtain ⟨blanks', hblank', hright⟩ := h'
  obtain ⟨taken, rfl, htaken⟩ := hleft.takes
  have hends : EndsLike blanks (blanks ++ " or ".toList ++ cs') := by
    have hjoin : EndsLike [] (" or ".toList ++ cs') := endsLike_of_startsWord rfl
    have hblanks := hjoin.append blanks
    rwa [List.append_nil, ← List.append_assoc] at hblanks
  have hword : Keyword "or" (blanks ++ " or ".toList ++ cs') (' ' :: cs') := by
    rw [List.append_assoc]
    exact spaced_word (by decide) hblank rfl
  obtain ⟨e, hderives, he⟩ :=
    (hright.congr (skipBlank_space cs')).or_chain rfl (htaken _ hends) hword
  refine ⟨e, ⟨blanks', hblank', ?_⟩, he⟩
  simpa using hderives

/-- A rule is read from its text, and from no other. -/
theorem parse_eq_ok_iff_isRule {source : String} {r : Rule Float} :
    Rule.parse source = .ok r ↔ r.source = source ∧ IsRule source.toList r.expr := by
  rw [← parse_eq_ok_iff, Rule.parse]
  rcases Expr.parse source with error | e
  · simp [Except.map]
  · obtain ⟨source', e'⟩ := r
    simp [Except.map, eq_comm]

/-- **Rules can be joined in writing.** If every rule was read from its text, their texts with `or`
between them are read as a rule with the alternatives of all of them. -/
theorem exists_parse_joinedSource {first : Rule Float} {rest : List (Rule Float)}
    (h : ∀ r ∈ first :: rest, Rule.parse r.source = .ok r) :
    ∃ r, Rule.parse (joinedSource first rest) = .ok r ∧ Restates (first :: rest) [r] := by
  suffices hjoined : ∃ e, IsRule (joinedSource first rest).toList e ∧
      e.alternatives = alternatives (first :: rest) by
    obtain ⟨e, hrule, he⟩ := hjoined
    exact ⟨⟨_, e⟩, parse_eq_ok_iff_isRule.2 ⟨rfl, hrule⟩, .joined he⟩
  have hread : ∀ r ∈ first :: rest, IsRule r.source.toList r.expr :=
    fun r hr ↦ (parse_eq_ok_iff_isRule.1 (h r hr)).2
  clear h
  induction rest generalizing first with
  | nil => exact ⟨first.expr, hread first List.mem_cons_self, (List.append_nil _).symm⟩
  | cons next rest ih =>
    obtain ⟨e', hrest, he'⟩ := ih fun r hr ↦ hread r (List.mem_cons_of_mem first hr)
    obtain ⟨e, hrule, he⟩ := (hread first List.mem_cons_self).or hrest
    refine ⟨e, ?_, ?_⟩
    · rwa [joinedSource, String.toList_append, String.toList_append]
    · rw [he, he']
      rfl

end Rule

end BarReplay
