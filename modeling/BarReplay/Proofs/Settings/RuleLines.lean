import BarReplay.Proofs.Settings.RuleTexts

/-!
# Rules in a text of settings

Rules on one line are the value of a key. In a text of settings no rule is taken for a comment, and
the first equals sign of the line is the one that is not part of a rule; so what stands under the
key is the line again, up to blanks around it (`Ini.entriesFrom_assignment`). Therefore a strategy
whose rules stand in the settings is the one that is given the rules as lists
(`Settings.lines_keep_rules`).
-/

namespace BarReplay

/-- Settings with rule lists and nothing else make a draft with all else at its standard. -/
theorem Settings.draft_of_absent {settings : Settings}
    (h : ∀ key ∈ ["stop_loss", "take_profit", "max_position_size", "commission", "slippage", "name",
      "description"], settings.text? "strategy" key = none) :
    settings.draft = .ok
      { entryRules := settings.list "strategy" "entry_rules"
        exitRules := settings.list "strategy" "exit_rules" } := by
  simp only [List.forall_mem_cons] at h
  obtain ⟨hstop, htake, hfraction, hcommission, hslippage, hname, hdescription, -⟩ := h
  simp only [draft, optionalFloat, hstop, htake, hfraction, hcommission, hslippage, hname,
    hdescription]
  rfl

namespace Ini

/-- A text that can stand before the equals sign: it starts no section, holds no comment and no
delimiter, and is not blank. -/
def IsName (name : List Char) : Prop :=
  (∃ c more, name = c :: more ∧ Text.isBlank c = false ∧ c ≠ '[') ∧
    ∀ c ∈ name, startsComment c = false ∧ isDelimiter c = false

variable {block line name value : List Char}

/-- Nothing of the line is taken for a comment. -/
theorem content_assignment (hline : Text.trim line = Text.trim (name ++ '=' :: value))
    (hname : IsName name) (hvalue : ∀ c ∈ value, startsComment c = false) :
    content line = name ++ '=' :: Text.trimEnd value := by
  obtain ⟨⟨c, more, rfl, hblank, -⟩, hplain⟩ := hname
  have htrim : Text.trim line = c :: more ++ '=' :: Text.trimEnd value := by
    have hskip : Text.skipBlank (c :: (more ++ '=' :: value)) = c :: (more ++ '=' :: value) :=
      List.dropWhile_cons_of_neg (by simp [hblank])
    rw [hline, Text.trim_eq, List.cons_append, hskip, ← List.cons_append,
      Text.trimEnd_append_cons rfl]
  have hcomment : ∀ d ∈ Text.trim line, (!startsComment d) = true := by
    rw [htrim]
    intro d hd
    rcases List.mem_append.1 hd with hd | hd
    · simp [(hplain d hd).1]
    rcases List.mem_cons.1 hd with rfl | hd
    · rfl
    · simp [hvalue d (Text.mem_of_mem_trimEnd hd)]
  rw [content, List.takeWhile_eq_self_iff.2 hcomment, Text.trim_trim, htrim]

/-- The line is cut at its first delimiter, the equals sign behind the name. -/
theorem entry_assignment (hname : IsName name) : entry block (name ++ '=' :: Text.trimEnd value) =
    .ok ⟨block, Text.lower (Text.trim name), some (Text.trim value)⟩ := by
  obtain ⟨⟨c, more, rfl, hblank, -⟩, hplain⟩ := hname
  have hbefore : ∀ d ∈ c :: more, (!isDelimiter d) = true := fun d hd ↦ by simp [(hplain d hd).2]
  have hdelimiter : ¬ (!isDelimiter '=') = true := by decide
  have hhead : (c :: more ++ '=' :: Text.trimEnd value).takeWhile (!isDelimiter ·) =
      c :: more := by
    rw [List.takeWhile_append_of_pos hbefore, List.takeWhile_cons, if_neg hdelimiter,
      List.append_nil]
  have htail : (c :: more ++ '=' :: Text.trimEnd value).dropWhile (!isDelimiter ·) =
      '=' :: Text.trimEnd value := by
    rw [List.dropWhile_append_of_pos hbefore, List.dropWhile_cons, if_neg hdelimiter]
  have hkey : Text.trim (c :: more) ≠ [] := by
    rw [Text.trim_eq, Text.skipBlank, List.dropWhile_cons_of_neg (by simp [hblank]),
      ← List.nil_append (c :: more), Text.trimEnd_append_cons hblank]
    simp
  simp only [entry, hhead, htail, List.isEmpty_iff, hkey, if_false, Text.trim_trimEnd]

/-- **A line `name = value`** in a text of settings is an entry of its own. -/
theorem entriesFrom_assignment {number : Nat} {rest : List (List Char)}
    (hline : Text.trim line = Text.trim (name ++ '=' :: value)) (hname : IsName name)
    (hvalue : ∀ c ∈ value, startsComment c = false) :
    entriesFrom number block (line :: rest) = (entriesFrom (number + 1) block rest).map
      (⟨block, Text.lower (Text.trim name), some (Text.trim value)⟩ :: ·) := by
  have hcontent := content_assignment hline hname hvalue
  have hentry : entry block (name ++ '=' :: Text.trimEnd value) = _ := entry_assignment hname
  obtain ⟨⟨c, more, rfl, -, hopen⟩, -⟩ := hname
  rw [entriesFrom, hcontent, List.cons_append]
  split
  next hnil => cases hnil
  next hbracket => exact absurd (List.cons.inj hbracket).1 hopen
  next =>
    rw [← List.cons_append, hentry]
    rcases entriesFrom (number + 1) block rest with fault | es <;> rfl

/-- The header of the section `strategy`. -/
theorem entriesFrom_strategy (number : Nat) (block : List Char) (rest : List (List Char)) :
    entriesFrom number block ("[strategy]".toList :: rest) =
      entriesFrom (number + 1) "strategy".toList rest := by
  have hcontent : content "[strategy]".toList = '[' :: "strategy]".toList := by decide +kernel
  have hname : sectionName? "strategy]".toList = some "strategy".toList := by decide +kernel
  rw [entriesFrom, hcontent]
  simp only [hname]

/-- A text of settings with a section `strategy` and two rule lists in it. -/
def rulesText (entryLine exitLine : String) : String :=
  "[strategy]\nentry_rules = " ++ entryLine ++ "\nexit_rules = " ++ exitLine ++ "\n"

/-- The lines of the text. -/
theorem toList_rulesText (entryLine exitLine : String) : (rulesText entryLine exitLine).toList =
    "[strategy]".toList ++ '\n' :: (("entry_rules ".toList ++ '=' :: ' ' :: entryLine.toList) ++
      '\n' :: (("exit_rules ".toList ++ '=' :: ' ' :: exitLine.toList) ++ '\n' :: [])) := by
  have happend (a b c d e : String) : (a ++ b ++ c ++ d ++ e).toList =
      a.toList ++ (b.toList ++ (c.toList ++ (d.toList ++ e.toList))) := by simp
  have hstart : "[strategy]\nentry_rules = ".toList =
      "[strategy]".toList ++ '\n' :: ("entry_rules ".toList ++ ['=', ' ']) := by decide +kernel
  have hmiddle : "\nexit_rules = ".toList = '\n' :: ("exit_rules ".toList ++ ['=', ' ']) := by
    decide +kernel
  refine (happend ..).trans ?_
  rw [hstart, hmiddle]
  simp only [List.append_assoc, List.cons_append, List.nil_append]
  rfl

variable {entries exits : List String} {entryLine exitLine : String}

/-- No rule is taken for a comment. -/
theorem startsComment_of_isLineOf {texts : List String} {line : String}
    (hrules : Settings.AreRules texts) (hline : Settings.IsLineOf texts line) :
    ∀ c ∈ ' ' :: line.toList, startsComment c = false := by
  refine List.forall_mem_cons.2 ⟨rfl, fun c hc ↦ ?_⟩
  rcases Settings.char_of_isLineOf hrules hline hc with hc | rfl
  · simp [startsComment, Rule.ne_of_blank_or_token hc (d := ';') rfl rfl,
      Rule.ne_of_blank_or_token hc (d := '#') rfl rfl]
  · rfl

theorem entries_rulesText (hentries : Settings.AreRules entries) (hexits : Settings.AreRules exits)
    (hentryLine : Settings.IsLineOf entries entryLine)
    (hexitLine : Settings.IsLineOf exits exitLine)
    (hentryFeed : '\n' ∉ entryLine.toList) (hexitFeed : '\n' ∉ exitLine.toList) :
    Ini.entries (rulesText entryLine exitLine) = .ok
      [⟨"strategy".toList, "entry_rules".toList, some (Text.trim entryLine.toList)⟩,
        ⟨"strategy".toList, "exit_rules".toList, some (Text.trim exitLine.toList)⟩] := by
  have hfeed {name line : List Char} (hname : '\n' ∉ name) (hline : '\n' ∉ line) :
      ∀ c ∈ name ++ '=' :: ' ' :: line, (c == '\n') = false := by
    intro c hc
    rw [beq_eq_false_iff_ne]
    rintro rfl
    simp [hname, hline] at hc
  have hentryName : IsName "entry_rules ".toList :=
    ⟨⟨'e', "ntry_rules ".toList, rfl, rfl, by decide⟩, by simp [startsComment, isDelimiter]⟩
  have hexitName : IsName "exit_rules ".toList :=
    ⟨⟨'e', "xit_rules ".toList, rfl, rfl, by decide⟩, by simp [startsComment, isDelimiter]⟩
  have hblank : ∀ c ∈ [' '], Text.isBlank c = true := List.forall_mem_singleton.2 rfl
  have hspace (cs : List Char) : Text.trim (' ' :: cs) = Text.trim cs :=
    Text.trim_blank_append hblank cs
  have hentryKey : Text.lower (Text.trim "entry_rules ".toList) = "entry_rules".toList := by
    decide +kernel
  have hexitKey : Text.lower (Text.trim "exit_rules ".toList) = "exit_rules".toList := by
    decide +kernel
  rw [Ini.entries, toList_rulesText, Text.lines_append_cons (by simp),
    Text.lines_append_cons (hfeed (by simp) hentryFeed),
    Text.lines_append_cons (hfeed (by simp) hexitFeed), if_neg (by simp), entriesFrom_strategy,
    entriesFrom_assignment (Text.trim_lineEnd _) hentryName
      (startsComment_of_isLineOf hentries hentryLine),
    entriesFrom_assignment (Text.trim_lineEnd _) hexitName
      (startsComment_of_isLineOf hexits hexitLine), hentryKey, hexitKey, hspace, hspace]
  rfl

/-- What stands under the keys of the text. -/
theorem text?_toSettings {v w : List Char} {key : String}
    (hkey : Text.lower key.toList = key.toList) :
    (toSettings [⟨"strategy".toList, "entry_rules".toList, some v⟩,
        ⟨"strategy".toList, "exit_rules".toList, some w⟩]).text? "strategy" key =
      if "exit_rules" = key then some (String.ofList w)
      else if "entry_rules" = key then some (String.ofList v)
      else none := by
  have hblock : Text.lower "strategy".toList = "strategy".toList := by decide +kernel
  have hbeq (a : String) : (a.toList == key.toList) = decide (a = key) := by
    rw [Bool.eq_iff_iff, beq_iff_eq, decide_eq_true_iff, String.toList_inj]
  simp only [toSettings, lookup?, hblock, hkey, List.reverse_cons, List.reverse_nil,
    List.nil_append, List.cons_append, List.find?_cons, List.find?_nil, beq_self_eq_true,
    Bool.true_and, hbeq]
  by_cases hexit : "exit_rules" = key
  · simp [hexit]
  by_cases hentry : "entry_rules" = key <;> simp [hexit, hentry]

/-- **Rules in a text of settings** stand under their keys, up to blanks around them. -/
theorem parse_rulesText (hentries : Settings.AreRules entries) (hexits : Settings.AreRules exits)
    (hentryLine : Settings.IsLineOf entries entryLine)
    (hexitLine : Settings.IsLineOf exits exitLine)
    (hentryFeed : '\n' ∉ entryLine.toList) (hexitFeed : '\n' ∉ exitLine.toList) :
    ∃ settings, parse (rulesText entryLine exitLine) = .ok settings ∧
      settings.draft = .ok
        { entryRules := entries.map String.trimBlank
          exitRules := exits.map String.trimBlank } := by
  have hes := entries_rulesText hentries hexits hentryLine hexitLine hentryFeed hexitFeed
  refine ⟨_, parse_eq_ok_iff.2 ⟨_, hes, rfl⟩, ?_⟩
  generalize hsettings : toSettings _ = settings
  have hentry : settings.text? "strategy" "entry_rules" = some entryLine.trimBlank := by
    rw [← hsettings, text?_toSettings (by decide +kernel), if_neg (by simp), if_pos rfl]
    rfl
  have hexit : settings.text? "strategy" "exit_rules" = some exitLine.trimBlank := by
    rw [← hsettings, text?_toSettings (by decide +kernel), if_pos rfl]
    rfl
  have habsent {key : String} (hkey : Text.lower key.toList = key.toList)
      (hne : "exit_rules" ≠ key ∧ "entry_rules" ≠ key) : settings.text? "strategy" key = none := by
    rw [← hsettings, text?_toSettings hkey, if_neg hne.1, if_neg hne.2]
  have hentryList : settings.list "strategy" "entry_rules" = entries.map String.trimBlank := by
    rw [Settings.list, hentry, Option.map_some, Settings.listItems_trimBlank,
      Settings.listItems_of_isLineOf hentries hentryLine]
    rfl
  have hexitList : settings.list "strategy" "exit_rules" = exits.map String.trimBlank := by
    rw [Settings.list, hexit, Option.map_some, Settings.listItems_trimBlank,
      Settings.listItems_of_isLineOf hexits hexitLine]
    rfl
  rw [← hentryList, ← hexitList]
  refine Settings.draft_of_absent ?_
  simp only [List.forall_mem_cons]
  refine ⟨?_, ?_, ?_, ?_, ?_, ?_, ?_, by simp⟩ <;>
    exact habsent (by decide +kernel) (by decide)

end Ini

/-- **Rule lists on one line lose nothing.** Rules are written on a line, with bars between them and
any blanks around them. The line gives back the rules, trimmed and in their order, and each is read
as the same tree as before. So a strategy whose rules stand under keys of the settings is the one
that is given the rules as lists, or is refused for the same reason; and a text of settings in which
the lines stand, if they hold no line feeds, makes the strategy with these rules. The texts that are
kept with the rules are trimmed. -/
theorem Settings.lines_keep_rules {entries exits : List String} {entryLine exitLine : String}
    (hentries : AreRules entries) (hexits : AreRules exits)
    (hentryLine : IsLineOf entries entryLine) (hexitLine : IsLineOf exits exitLine) :
    (listItems entryLine = entries.map String.trimBlank ∧
      ∀ text ∈ entries, Expr.parse text.trimBlank = Expr.parse text) ∧
    (∀ (settings : Settings) (d : Draft), settings.text? "strategy" "entry_rules" = some entryLine →
      settings.text? "strategy" "exit_rules" = some exitLine → settings.draft = .ok d →
      d.check = ({ d with entryRules := entries, exitRules := exits : Draft }.check).map
        Strategy.trimmed) ∧
    ('\n' ∉ entryLine.toList → '\n' ∉ exitLine.toList → ∃ settings d s,
      Ini.parse (Ini.rulesText entryLine exitLine) = .ok settings ∧ settings.draft = .ok d ∧
      Draft.check { entryRules := entries, exitRules := exits } = .ok s ∧
      d.check = .ok s.trimmed) := by
  refine ⟨⟨listItems_of_isLineOf hentries hentryLine, fun text htext ↦ ?_⟩,
    fun settings d hentry hexit hd ↦ ?_, fun hentryFeed hexitFeed ↦ ?_⟩
  · obtain ⟨e, he⟩ := hentries text htext
    rw [he, Expr.parse_trimBlank he]
  · obtain ⟨hentryList, hexitList⟩ := lists_of_draft hd
    rw [list_of_isLineOf hentry hentries hentryLine] at hentryList
    rw [list_of_isLineOf hexit hexits hexitLine] at hexitList
    rw [← Draft.check_trimBlank hentries hexits, ← hentryList, ← hexitList]
  · obtain ⟨settings, hparse, hdraft⟩ :=
      Ini.parse_rulesText hentries hexits hentryLine hexitLine hentryFeed hexitFeed
    obtain ⟨s, hs⟩ := Draft.exists_check_of_areRules hentries hexits
    refine ⟨settings, _, s, hparse, hdraft, hs, ?_⟩
    rw [Draft.check_trimBlank hentries hexits {}, hs]
    rfl

namespace Sample

/-- Two rules, one of them with a blank before it. -/
def ruleTexts : List String :=
  ["rsi < 30", " close > sma_20"]

/-- The two rules on one line, with a wide blank before the bar and a tab behind it. -/
def ruleLine : String :=
  "rsi < 30\u3000|\t close > sma_20"

end Sample

/-- The sample line gives back the sample rules, and so does a text of settings with it. -/
theorem Settings.sample_lines_keep_rules :
    AreRules Sample.ruleTexts ∧ IsLineOf Sample.ruleTexts Sample.ruleLine ∧
      listItems Sample.ruleLine = ["rsi < 30", "close > sma_20"] ∧
      ∃ settings d s, Ini.parse (Ini.rulesText Sample.ruleLine "") = .ok settings ∧
        settings.draft = .ok d ∧ Draft.check { entryRules := Sample.ruleTexts } = .ok s ∧
        d.check = .ok s.trimmed := by
  have hrules : AreRules Sample.ruleTexts := by
    have hfirst : Rule.IsRule "rsi < 30".toList (.compare (.field .rsi) .lt (.constant 30)) :=
      Rule.isRule_text (e := .compare (.field .rsi) .lt (.constant 30)) (by decide +kernel)
    have hsecond : Rule.IsRule " close > sma_20".toList
        (.compare (.field .close) .gt (.field .sma20)) := by
      obtain ⟨blanks, hblanks, hderives⟩ :=
        Rule.isRule_text (e := .compare (.field .close) .gt (.field .sma20)) (by decide)
      exact ⟨blanks, hblanks, hderives.congr (by decide)⟩
    intro text htext
    rcases List.mem_pair.1 htext with rfl | rfl
    · exact ⟨_, parse_eq_ok_iff.2 hfirst⟩
    · exact ⟨_, parse_eq_ok_iff.2 hsecond⟩
  have hline : IsLineOf Sample.ruleTexts Sample.ruleLine := by
    refine ⟨["rsi < 30\u3000", "\t close > sma_20"], .cons ?_ (.cons ?_ .nil), by decide⟩
    · exact ⟨[], ['\u3000'], List.forall_mem_nil _, List.forall_mem_singleton.2 rfl, by decide⟩
    · exact ⟨['\t'], [], List.forall_mem_singleton.2 rfl, List.forall_mem_nil _, by decide⟩
  have hnone : AreRules [] := by simp [AreRules]
  have hempty : IsLineOf [] "" := ⟨[], .nil, rfl⟩
  obtain ⟨⟨hitems, -⟩, -, hsettings⟩ := lines_keep_rules hrules hnone hline hempty
  exact ⟨hrules, hline, hitems.trans (by decide), hsettings (by decide) (by decide)⟩

end BarReplay
