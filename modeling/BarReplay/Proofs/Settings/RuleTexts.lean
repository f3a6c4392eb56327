import BarReplay.Proofs.Rule.Alphabet
import BarReplay.Proofs.Rule.Canonical
import BarReplay.Proofs.Text.Pieces

/-!
# Rules on one line

A rule list in the settings is one line, the rules with bars between them and any blanks around
them. Nothing is lost that way, for three reasons: no rule holds a bar, so each is a piece of its
own; no rule is blank, so none is dropped; and a rule is the same tree when it is trimmed, as the
reader skips the same blanks that trimming drops (`Rule.IsRule.trim`). So a line gives back the
trimmed rules in their order (`listItems_of_isLineOf`), and a draft with the trimmed rules makes the
same strategy, or is refused for the same reason (`Draft.check_trimBlank`).
-/

namespace BarReplay

/-! ### A trimmed rule -/

namespace Rule

/-- **A rule stays the same when it is trimmed**, and something is left of it. -/
theorem IsRule.trim {cs : List Char} {e : Expr Float} (h : IsRule cs e) :
    IsRule (Text.trim cs) e ∧ Text.trim cs ≠ [] := by
  obtain ⟨blanks, hblank, hderives⟩ := h
  obtain ⟨taken, rfl, htaken⟩ := hderives.takes
  obtain ⟨taken', happend, head, last, rfl, -, hlast⟩ := hderives.consumes
  obtain rfl := List.append_cancel_right happend
  -- what is trimmed at the end are the blanks that the phrase leaves
  have htrim : Text.trim (head ++ [last] ++ blanks) = Text.skipBlank (head ++ [last]) := by
    rw [Text.trim_append_blank hblank, Text.trim_concat (isBlank_of_isTokenChar hlast)]
  have hwhole : Derives .disjunction (head ++ [last]) e [] := by
    simpa using htaken [] (endsLike_of_startsWord rfl)
  rw [htrim]
  exact ⟨⟨[], by simp [AllBlank], hwhole.congr (skipBlank_skipBlank _)⟩, hwhole.skipBlank_ne_nil⟩

/-- A character that is neither blank nor one of tokens is not in a rule. -/
theorem ne_of_blank_or_token {c d : Char} (hc : Text.isBlank c = true ∨ isTokenChar c = true)
    (hblank : Text.isBlank d = false) (htoken : isTokenChar d = false) : c ≠ d := by
  rintro rfl
  simp [hblank, htoken] at hc

end Rule

namespace Text

/-- The text with blanks around it. -/
def IsPadded (text padded : String) : Prop :=
  ∃ before after, Rule.AllBlank before ∧ Rule.AllBlank after ∧
    padded.toList = before ++ text.toList ++ after

theorem IsPadded.trim_eq {text padded : String} (h : IsPadded text padded) :
    trim padded.toList = trim text.toList := by
  obtain ⟨before, after, hbefore, hafter, hpadded⟩ := h
  rw [hpadded, trim_append_blank hafter, trim_blank_append hbefore]

end Text

/-- A rule is read as the same tree when it is trimmed. -/
theorem Expr.parse_trimBlank {text : String} {e : Expr Float} (h : Expr.parse text = .ok e) :
    Expr.parse text.trimBlank = .ok e := by
  rw [parse_eq_ok_iff] at h ⊢
  rw [String.trimBlank, String.toList_ofList]
  exact h.trim.1

/-! ### Rules with bars between them -/

namespace Settings

/-- All texts are rules. -/
def AreRules (texts : List String) : Prop :=
  ∀ text ∈ texts, ∃ e, Expr.parse text = .ok e

/-- The line is the texts with bars between them, and with any blanks around each. -/
def IsLineOf (texts : List String) (line : String) : Prop :=
  ∃ padded, List.Forall₂ Text.IsPadded texts padded ∧ line = "|".intercalate padded

variable {texts : List String} {line : String}

theorem blank_or_token_of_isPadded {padded : List String} (hrules : AreRules texts)
    (hpadded : List.Forall₂ Text.IsPadded texts padded) :
    ∀ text ∈ padded, ∀ c ∈ text.toList, Text.isBlank c = true ∨ Rule.isTokenChar c = true := by
  induction hpadded with
  | nil => simp
  | @cons text first _ _ hfirst _ ih =>
    obtain ⟨⟨e, he⟩, hrest⟩ := List.forall_mem_cons.1 hrules
    refine List.forall_mem_cons.2 ⟨fun c hc ↦ ?_, ih hrest⟩
    obtain ⟨before, after, hbefore, hafter, htoList⟩ := hfirst
    rw [htoList, List.mem_append, List.mem_append] at hc
    rcases hc with (hc | hc) | hc
    · exact .inl (hbefore c hc)
    · exact (parse_eq_ok_iff.1 he).blank_or_token hc
    · exact .inl (hafter c hc)

/-- A line of rules holds blanks, token characters and bars. -/
theorem char_of_isLineOf (hrules : AreRules texts) (hline : IsLineOf texts line) {c : Char}
    (hc : c ∈ line.toList) : (Text.isBlank c = true ∨ Rule.isTokenChar c = true) ∨ c = '|' := by
  obtain ⟨padded, hpadded, rfl⟩ := hline
  have hchars := blank_or_token_of_isPadded hrules hpadded
  rw [String.toList_intercalate] at hc
  refine (Text.mem_intercalate hc).imp_left ?_
  rintro ⟨piece, hpiece, hc⟩
  obtain ⟨text, htext, rfl⟩ := List.mem_map.1 hpiece
  exact hchars text htext c hc

theorem map_trim_of_isPadded {padded : List String}
    (hpadded : List.Forall₂ Text.IsPadded texts padded) :
    (padded.map String.toList).map Text.trim = texts.map fun text ↦ Text.trim text.toList := by
  induction hpadded with
  | nil => rfl
  | cons hfirst _ ih => rw [List.map_cons, List.map_cons, List.map_cons, hfirst.trim_eq, ih]

/-- The pieces of a line of rules, trimmed, are the trimmed rules. -/
theorem listed_of_isLineOf (hrules : AreRules texts) (hline : IsLineOf texts line) :
    Text.listed line.toList = texts.map fun text ↦ Text.trim text.toList := by
  obtain ⟨padded, hpadded, rfl⟩ := hline
  have hsome : ∀ piece ∈ texts.map fun text ↦ Text.trim text.toList, (!piece.isEmpty) = true := by
    rw [List.forall_mem_map]
    intro text htext
    obtain ⟨e, he⟩ := hrules text htext
    simpa using (parse_eq_ok_iff.1 he).trim.2
  have hbars : ∀ piece ∈ padded.map String.toList, ∀ c ∈ piece, (c == '|') = false := by
    refine List.forall_mem_map.2 fun text htext c hc ↦ beq_eq_false_iff_ne.2 ?_
    exact Rule.ne_of_blank_or_token (blank_or_token_of_isPadded hrules hpadded text htext c hc)
      rfl rfl
  have htrim := map_trim_of_isPadded hpadded
  rw [Text.listed, String.toList_intercalate]
  cases hpadded with
  | nil => rfl
  | cons hfirst hrest =>
    -- there is at least one rule, so the line is cut into as many pieces as it has rules
    rw [show "|".toList = ['|'] from rfl,
      Text.pieces_intercalate (p := (· == '|')) (beq_self_eq_true _) (by simp) hbars, htrim,
      List.filter_eq_self.2 hsome]

/-- **A line of rules gives back the rules**, trimmed and in their order. -/
theorem listItems_of_isLineOf (hrules : AreRules texts) (hline : IsLineOf texts line) :
    listItems line = texts.map String.trimBlank := by
  rw [listItems, listed_of_isLineOf hrules hline, List.map_map]
  rfl

/-- Blanks around a line make no difference. -/
theorem listItems_trimBlank (line : String) : listItems line.trimBlank = listItems line := by
  rw [listItems, listItems, String.trimBlank, String.toList_ofList, Text.listed_trim]

theorem list_of_isLineOf {settings : Settings} {block key : String}
    (hwritten : settings.text? block key = some line) (hrules : AreRules texts)
    (hline : IsLineOf texts line) : settings.list block key = texts.map String.trimBlank := by
  rw [list, hwritten]
  exact listItems_of_isLineOf hrules hline

end Settings

/-! ### What is made of the rules -/

variable {α : Type}

/-- The rule with its text trimmed. -/
def Rule.trimmed (r : Rule α) : Rule α :=
  { r with source := r.source.trimBlank }

/-- The strategy with the texts of its rules trimmed. -/
def Strategy.trimmed (s : Strategy α) : Strategy α :=
  { s with
    entryRules := s.entryRules.map Rule.trimmed
    exitRules := s.exitRules.map Rule.trimmed }

namespace Draft

/-- Trimmed texts are read as the same rules, with the trimmed texts. -/
theorem rulesFrom_trimBlank {texts : List String} (h : Settings.AreRules texts) (list : RuleList)
    (index : Nat) : rulesFrom list index (texts.map String.trimBlank) =
      (rulesFrom list index texts).map (·.map Rule.trimmed) := by
  induction texts generalizing index with
  | nil => rfl
  | cons text rest ih =>
    obtain ⟨⟨e, he⟩, hrest⟩ := List.forall_mem_cons.1 h
    rw [List.map_cons, rulesFrom, rulesFrom, Rule.parse, Rule.parse, he, Expr.parse_trimBlank he,
      ih hrest]
    rcases rulesFrom list (index + 1) rest with error | rules <;> rfl

/-- A draft with trimmed rules makes the same strategy with trimmed rules, or is refused for the
same reason. -/
theorem check_trimBlank {entries exits : List String} (hentries : Settings.AreRules entries)
    (hexits : Settings.AreRules exits) (d : Draft) :
    { d with
      entryRules := entries.map String.trimBlank
      exitRules := exits.map String.trimBlank : Draft }.check =
      ({ d with entryRules := entries, exitRules := exits : Draft }.check).map
        Strategy.trimmed := by
  have hshare (entries exits : List String) :
      { d with entryRules := entries, exitRules := exits : Draft }.share = d.share := rfl
  simp only [check, hshare, rules, rulesFrom_trimBlank hentries, rulesFrom_trimBlank hexits]
  rcases shareOfAccount "max_position_size" d.share with error | fraction
  · rfl
  rcases threshold "stop_loss" d.stopLoss with error | stopLoss
  · rfl
  rcases threshold "take_profit" d.takeProfit with error | takeProfit
  · rfl
  rcases nonNegative "commission" d.commission with error | commission
  · rfl
  rcases nonNegative "slippage" d.slippage with error | slippage
  · rfl
  rcases rulesFrom .entry 0 entries with error | entryRules
  · rfl
  rcases rulesFrom .exit 0 exits with error | exitRules <;> rfl

theorem exists_rules_of_areRules {texts : List String} (h : Settings.AreRules texts)
    (list : RuleList) : ∃ r, rules list texts = .ok r := by
  have : Nonempty (Expr Float) := ⟨.literal true⟩
  choose! tree htree using h
  refine ⟨texts.map fun text ↦ ⟨text, tree text⟩, rulesFrom_eq_ok_iff.2 ?_⟩
  rw [List.map_map]
  refine List.map_congr_left fun text htext ↦ ?_
  rw [Rule.parse, htree text htext]
  rfl

/-- A draft of rules and nothing else is accepted. -/
theorem exists_check_of_areRules {entries exits : List String}
    (hentries : Settings.AreRules entries) (hexits : Settings.AreRules exits) :
    ∃ s, Draft.check { entryRules := entries, exitRules := exits } = .ok s := by
  have hstandard : NumbersInRange {} := (exists_check_iff.1 ⟨_, rfl⟩).1
  refine exists_check_iff.2 ⟨?_, exists_rules_of_areRules hentries _,
    exists_rules_of_areRules hexits _⟩
  exact ⟨hstandard.share, hstandard.stopLoss, hstandard.takeProfit, hstandard.commission,
    hstandard.slippage⟩

end Draft

end BarReplay
