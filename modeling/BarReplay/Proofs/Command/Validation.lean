import BarReplay.Proofs.Command.Sources
import BarReplay.Proofs.Command.Transcript
import BarReplay.Proofs.Json.Printing

/-!
# A validation asks what a run asks

A validation goes through the strategies of a file twice: once over the texts of all rules, which it
lists, keeping the first that is no rule, and once over the strategies, whose numbers are looked at
before their rules. A run goes through them once and stops at the first that is refused. The two
accept the same files, because the rules of a strategy that is accepted are all rules
(`allParse_of_check`), so that the first pass finds nothing in a file that the second accepts. They
need not refuse a file for the same reason: a validation blames the first text that is no rule even
behind a strategy with a bad number.

The order of a document is an order on places (`RulePlace.Before`), and the texts of a file are
listed in it (`pairwise_rulePlaces`). So the first error of the listing is that of the first place.
-/

namespace BarReplay

/-! ### Places of rules -/

/-- The texts of a rule list of the draft. -/
def Draft.texts (d : Draft) : RuleList → List String
  | .entry => d.entryRules
  | .exit => d.exitRules

/-- A place at which the drafts of a file may have the text of a rule. -/
structure RulePlace where
  draft : Nat
  list : RuleList
  index : Nat

namespace RulePlace

/-- The text at the place, if there is one. -/
def text? (drafts : List Draft) (p : RulePlace) : Option String :=
  drafts[p.draft]?.bind fun d ↦ (d.texts p.list)[p.index]?

/-- One place comes before another in the order of the document: by the draft, then the entry rules
before the exit rules, then by the index. -/
def Before (p q : RulePlace) : Prop :=
  p.draft < q.draft ∨ p.draft = q.draft ∧
    (p.list = .entry ∧ q.list = .exit ∨ p.list = q.list ∧ p.index < q.index)

theorem Before.asymm {p q : RulePlace} (h : p.Before q) : ¬ q.Before p := by
  intro h'
  rcases h with h | ⟨hdraft, ⟨hp, hq⟩ | ⟨hlist, h⟩⟩ <;>
    rcases h' with h' | ⟨hdraft', ⟨hq', hp'⟩ | ⟨hlist', h'⟩⟩ <;> first | omega | simp_all

end RulePlace

/-- The places of a draft that have a text, with the texts. -/
def Draft.places (number : Nat) (d : Draft) : List (RulePlace × String) :=
  [RuleList.entry, .exit].flatMap fun list ↦
    (d.texts list).zipIdx.map fun t ↦ (⟨number, list, t.2⟩, t.1)

/-- All places that have a text, with the texts. -/
def rulePlaces (drafts : List Draft) : List (RulePlace × String) :=
  drafts.zipIdx.flatMap fun d ↦ d.1.places d.2

theorem Draft.mem_places {d : Draft} {number : Nat} {p : RulePlace} {text : String} :
    (p, text) ∈ d.places number ↔ p.draft = number ∧ (d.texts p.list)[p.index]? = some text := by
  obtain ⟨draft, list, index⟩ := p
  cases list <;>
    simp [places, List.mem_zipIdx_iff_getElem?, and_comm, eq_comm (a := number)]

theorem mem_rulePlaces {drafts : List Draft} {p : RulePlace} {text : String} :
    (p, text) ∈ rulePlaces drafts ↔ p.text? drafts = some text := by
  simp [rulePlaces, Draft.mem_places, RulePlace.text?, List.mem_zipIdx_iff_getElem?,
    Option.bind_eq_some_iff]

theorem pairwise_zipIdx {ι : Type} (items : List ι) :
    items.zipIdx.Pairwise fun a b ↦ a.2 < b.2 := by
  rw [← List.pairwise_map (R := (· < ·)), List.zipIdx_map_snd]
  exact List.pairwise_lt_range'

theorem Draft.pairwise_places (d : Draft) (number : Nat) :
    (d.places number).Pairwise fun a b ↦ a.1.Before b.1 := by
  have hlist (list : RuleList) : ((d.texts list).zipIdx.map fun t ↦
      ((⟨number, list, t.2⟩ : RulePlace), t.1)).Pairwise fun a b ↦ a.1.Before b.1 :=
    List.pairwise_map.2 ((pairwise_zipIdx _).imp fun h ↦ .inr ⟨rfl, .inr ⟨rfl, h⟩⟩)
  simp only [places, List.flatMap_cons, List.flatMap_nil, List.append_nil]
  refine List.pairwise_append.2 ⟨hlist .entry, hlist .exit, ?_⟩
  simp only [List.mem_map]
  rintro _ ⟨t, -, rfl⟩ _ ⟨t', -, rfl⟩
  exact .inr ⟨rfl, .inl ⟨rfl, rfl⟩⟩

/-- The places of a file are in the order of the document. -/
theorem pairwise_rulePlaces (drafts : List Draft) :
    (rulePlaces drafts).Pairwise fun a b ↦ a.1.Before b.1 := by
  refine List.pairwise_flatMap.2 ⟨fun d _ ↦ d.1.pairwise_places d.2, ?_⟩
  refine (pairwise_zipIdx drafts).imp fun h ↦ ?_
  rintro ⟨p, text⟩ hp ⟨q, text'⟩ hq
  obtain ⟨hp, -⟩ := Draft.mem_places.1 hp
  obtain ⟨hq, -⟩ := Draft.mem_places.1 hq
  exact .inl (by rwa [hp, hq])

/-- Every text at a place of the drafts is a rule. -/
def AllParse (drafts : List Draft) : Prop :=
  ∀ (p : RulePlace) (text : String), p.text? drafts = some text →
    ∃ tree, Expr.parse text = .ok tree

/-- The place is the first with a text that is no rule. -/
structure FirstBadRule (drafts : List Draft) (p : RulePlace) (text : String) (error : ParseError) :
    Prop where
  here : p.text? drafts = some text
  fault : Expr.parse text = .error error
  first : ∀ (q : RulePlace) (other : String), q.Before p → q.text? drafts = some other →
    ∃ tree, Expr.parse other = .ok tree

/-! ### Drafts that are refused -/

/-- A draft is refused for this error, and none before it is refused. -/
def FirstRefused (drafts : List Draft) (e : Error) : Prop :=
  ∃ before d after, drafts = before ++ d :: after ∧ (∀ b ∈ before, ∃ s, b.check = .ok s) ∧
    d.check = .error e

theorem mapM_check_eq_error_iff {drafts : List Draft} {e : Error} :
    drafts.mapM Draft.check = .error e ↔ FirstRefused drafts e := by
  induction drafts with
  | nil => simp [FirstRefused, pure, Except.pure]
  | cons d rest ih =>
    rw [List.mapM_cons, except_bind_eq_error_iff]
    simp only [except_bind_eq_error_iff, ih]
    constructor
    · rintro (hd | ⟨s, hs, ⟨before, d', after, rfl, hbefore, hd'⟩ | ⟨all, -, hpure⟩⟩)
      · exact ⟨[], d, rest, rfl, nofun, hd⟩
      · exact ⟨d :: before, d', after, rfl, List.forall_mem_cons.2 ⟨⟨s, hs⟩, hbefore⟩, hd'⟩
      · cases hpure
    · rintro ⟨- | ⟨b, before⟩, d', after, hsplit, hbefore, hd'⟩
      · obtain ⟨rfl, -⟩ := List.cons.inj hsplit
        exact .inl hd'
      · obtain ⟨rfl, rfl⟩ := List.cons.inj hsplit
        obtain ⟨⟨s, hs⟩, hbefore⟩ := List.forall_mem_cons.1 hbefore
        exact .inr ⟨s, hs, .inl ⟨before, d', after, rfl, hbefore, hd'⟩⟩

theorem exists_mapM_check_iff {drafts : List Draft} :
    (∃ all, drafts.mapM Draft.check = .ok all) ↔ ∀ d ∈ drafts, ∃ s, d.check = .ok s := by
  constructor
  · rintro ⟨all, hall⟩
    have hpairs := Command.mapM_check_eq_ok_iff.1 hall
    clear hall
    induction hpairs with
    | nil => exact nofun
    | cons hd _ ih => exact List.forall_mem_cons.2 ⟨⟨_, hd⟩, ih⟩
  · intro h
    rcases hall : drafts.mapM Draft.check with e | all
    · obtain ⟨before, d, after, rfl, -, hd⟩ := mapM_check_eq_error_iff.1 hall
      obtain ⟨s, hs⟩ := h d (by simp)
      rw [hd] at hs
      cases hs
    · exact ⟨all, rfl⟩

/-- The texts of a draft that is accepted are rules. -/
theorem Draft.exists_parse_of_check {d : Draft} {s : Strategy Float} (h : d.check = .ok s)
    {list : RuleList} {text : String} (htext : text ∈ d.texts list) :
    ∃ tree, Expr.parse text = .ok tree := by
  obtain ⟨-, -, -, -, -, hentry, hexit, -⟩ := Draft.check_eq_ok_iff.1 h
  have hrules : ∃ rs : List (Rule Float), (d.texts list).map Rule.parse = rs.map .ok := by
    cases list with
    | entry => exact ⟨_, Draft.rulesFrom_eq_ok_iff.1 hentry⟩
    | exit => exact ⟨_, Draft.rulesFrom_eq_ok_iff.1 hexit⟩
  obtain ⟨rs, hrs⟩ := hrules
  have hmem : Rule.parse text ∈ rs.map .ok := hrs ▸ List.mem_map_of_mem htext
  obtain ⟨r, -, hr⟩ := List.mem_map.1 hmem
  obtain ⟨tree, htree, -⟩ := except_map_eq_ok_iff.1 hr.symm
  exact ⟨tree, htree⟩

/-- Where all drafts are accepted, all texts are rules. -/
theorem allParse_of_check {drafts : List Draft} (h : ∀ d ∈ drafts, ∃ s, d.check = .ok s) :
    AllParse drafts := by
  intro p text htext
  obtain ⟨d, hd, htext⟩ := Option.bind_eq_some_iff.1 htext
  obtain ⟨s, hs⟩ := h d (List.mem_of_getElem? hd)
  exact Draft.exists_parse_of_check hs (List.mem_of_getElem? htext)

namespace Command

open Job

/-! ### The listing -/

theorem listRules_eq (list : RuleList) (index : Nat) (texts : List String) :
    listRules list index texts = (texts.zipIdx index).map fun t ↦ listRule list t.2 t.1 := by
  induction texts generalizing index with
  | nil => rfl
  | cons text rest ih => rw [listRules, ih, List.zipIdx_cons, List.map_cons]

/-- The lines about one text: the rule that it is read as beside the text itself, or where it is
no rule. -/
def ruleLines (list : RuleList) (index : Nat) (text : String) : List String :=
  (list.name ++ " rule #" ++ toString index ++ ":") ::
    match Expr.parse text with
    | .ok tree => ["  Parsed: " ++ tree.text, "  Raw:    " ++ text]
    | .error error => ["  error:\n" ++ error.inContext text]

theorem listRule_fst (list : RuleList) (index : Nat) (text : String) :
    (listRule list index text).1 = ruleLines list index text := by
  rw [listRule, ruleLines]
  rcases Expr.parse text with error | tree <;> rfl

/-- Every strategy by its name, and every rule of its lists under its index. -/
def listing (drafts : List Draft) : List String :=
  drafts.flatMap fun d ↦ ("\nStrategy: " ++ d.name) ::
    [RuleList.entry, .exit].flatMap fun list ↦
      (d.texts list).zipIdx.flatMap fun t ↦ ruleLines list t.2 t.1

theorem flatMap_listDraft (drafts : List Draft) :
    (drafts.flatMap listDraft).flatMap Prod.fst = listing drafts := by
  rw [List.flatMap_assoc, listing]
  congr 1
  funext d
  simp [listDraft, listRules_eq, listRule_fst, Draft.texts, List.flatMap_map]

/-- The error of a text that is no rule, which names its place in the strategy. -/
def ruleError? (a : RulePlace × String) : Option Error :=
  (listRule a.1.list a.1.index a.2).2

theorem listDraft_eq (d : Draft) (number : Nat) : listDraft d =
    (["\nStrategy: " ++ d.name], none) ::
      (d.places number).map fun a ↦ listRule a.1.list a.1.index a.2 := by
  simp [listDraft, listRules_eq, Draft.places, Draft.texts, Function.comp_def]

/-- The first error of a listing, read off the places. They may be numbered from anywhere, as the
errors do not name the strategy. -/
theorem findSome?_listDraft (drafts : List Draft) (number : Nat) :
    (drafts.flatMap listDraft).findSome? Prod.snd =
      ((drafts.zipIdx number).flatMap fun d ↦ d.1.places d.2).findSome? ruleError? := by
  induction drafts generalizing number with
  | nil => rfl
  | cons d rest ih =>
    rw [List.zipIdx_cons, List.flatMap_cons, List.flatMap_cons, List.findSome?_append,
      List.findSome?_append, ih, listDraft_eq d number]
    rw [List.findSome?_cons, List.findSome?_map]
    rfl

theorem ruleError?_eq_none_iff {p : RulePlace} {text : String} :
    ruleError? (p, text) = none ↔ ∃ tree, Expr.parse text = .ok tree := by
  rw [ruleError?, listRule]
  rcases Expr.parse text with e | tree <;> simp

theorem ruleError?_eq_some_iff {p : RulePlace} {text : String} {e : Error} :
    ruleError? (p, text) = some e ↔
      ∃ error, Expr.parse text = .error error ∧ e = .rule p.list p.index text error := by
  rw [ruleError?, listRule]
  rcases Expr.parse text with error | tree <;> simp [eq_comm]

theorem findSome?_rulePlaces_eq_none_iff {drafts : List Draft} :
    (rulePlaces drafts).findSome? ruleError? = none ↔ AllParse drafts := by
  simp [AllParse, ← mem_rulePlaces, ruleError?_eq_none_iff]

/-- **The first error that is found is that of the first place with a text that is no rule.** -/
theorem findSome?_rulePlaces_eq_some_iff {drafts : List Draft} {e : Error} :
    (rulePlaces drafts).findSome? ruleError? = some e ↔
      ∃ p text error, FirstBadRule drafts p text error ∧ e = .rule p.list p.index text error := by
  have hsorted := pairwise_rulePlaces drafts
  constructor
  · intro h
    obtain ⟨before, ⟨p, text⟩, after, hsplit, hfound, hbefore⟩ := List.findSome?_eq_some_iff.1 h
    obtain ⟨error, herror, rfl⟩ := ruleError?_eq_some_iff.1 hfound
    have htext : p.text? drafts = some text := mem_rulePlaces.1 (by simp [hsplit])
    refine ⟨p, text, error, ⟨htext, herror, fun q other hq hother ↦ ?_⟩, rfl⟩
    have hmem := mem_rulePlaces.2 hother
    rw [hsplit] at hmem hsorted
    rcases List.mem_append.1 hmem with hmem | hmem
    · exact ruleError?_eq_none_iff.1 (hbefore _ hmem)
    · -- neither the place itself nor what comes after it is before it
      have hafter : ∀ a ∈ after, p.Before a.1 :=
        (List.pairwise_cons.1 (List.pairwise_append.1 hsorted).2.1).1
      rcases List.mem_cons.1 hmem with heq | hmem
      · obtain ⟨rfl, -⟩ := Prod.mk.inj heq
        exact absurd hq hq.asymm
      · exact absurd (hafter _ hmem) hq.asymm
  · rintro ⟨p, text, error, hfirst, rfl⟩
    obtain ⟨before, after, hsplit⟩ := List.append_of_mem (mem_rulePlaces.2 hfirst.here)
    refine List.findSome?_eq_some_iff.2 ⟨before, (p, text), after, hsplit,
      ruleError?_eq_some_iff.2 ⟨error, hfirst.fault, rfl⟩, fun a ha ↦ ?_⟩
    have hbefore : a.1.Before p := by
      rw [hsplit] at hsorted
      exact (List.pairwise_append.1 hsorted).2.2 a ha _ List.mem_cons_self
    have htext : a.1.text? drafts = some a.2 := mem_rulePlaces.1 (by simp [hsplit, ha])
    exact ruleError?_eq_none_iff.2 (hfirst.first a.1 a.2 hbefore htext)

/-! ### The verdict -/

/-- What a validation has to find about the drafts of a file. -/
structure Judges (drafts : List Draft) (verdict : Except Error Unit) : Prop where
  accepts : verdict = .ok () ↔ ∀ d ∈ drafts, ∃ s, d.check = .ok s
  badRule : ¬ AllParse drafts → ∃ p text error, FirstBadRule drafts p text error ∧
    verdict = .error (.rule p.list p.index text error)
  refused : AllParse drafts → ∀ e, verdict = .error e ↔ FirstRefused drafts e

/-- The first text that is no rule, or else the first draft that is refused. -/
def verdictOn (drafts : List Draft) : Except Error Unit :=
  match (rulePlaces drafts).findSome? ruleError? with
  | some e => .error e
  | none => (drafts.mapM Draft.check).map fun _ ↦ ()

theorem verdictOn_of_allParse {drafts : List Draft} (h : AllParse drafts) :
    verdictOn drafts = (drafts.mapM Draft.check).map fun _ ↦ () := by
  rw [verdictOn, findSome?_rulePlaces_eq_none_iff.2 h]

theorem judges_verdictOn (drafts : List Draft) : Judges drafts (verdictOn drafts) := by
  have hbad (h : ¬ AllParse drafts) : ∃ p text error, FirstBadRule drafts p text error ∧
      verdictOn drafts = .error (.rule p.list p.index text error) := by
    rcases hfound : (rulePlaces drafts).findSome? ruleError? with - | e
    · exact absurd (findSome?_rulePlaces_eq_none_iff.1 hfound) h
    · obtain ⟨p, text, error, hfirst, rfl⟩ := findSome?_rulePlaces_eq_some_iff.1 hfound
      exact ⟨p, text, error, hfirst, by rw [verdictOn, hfound]⟩
  refine ⟨⟨fun h ↦ ?_, fun h ↦ ?_⟩, hbad, fun h e ↦ ?_⟩
  · have hall : AllParse drafts := by
      by_contra hnot
      obtain ⟨p, text, error, -, heq⟩ := hbad hnot
      rw [h] at heq
      cases heq
    rw [verdictOn_of_allParse hall] at h
    obtain ⟨all, hmap, -⟩ := except_map_eq_ok_iff.1 h
    exact exists_mapM_check_iff.1 ⟨all, hmap⟩
  · obtain ⟨all, hall⟩ := exists_mapM_check_iff.2 h
    rw [verdictOn_of_allParse (allParse_of_check h), hall]
    rfl
  · rw [verdictOn_of_allParse h, except_map_eq_error_iff, mapM_check_eq_error_iff]

theorem forM_check (drafts : List Draft) : (drafts.forM fun d ↦ d.check.map fun _ ↦ ()) =
    (drafts.mapM Draft.check).map fun _ ↦ () := by
  induction drafts with
  | nil => rfl
  | cons d rest ih =>
    show (d.check.map fun _ ↦ ()) >>= (fun _ ↦ rest.forM fun d ↦ d.check.map fun _ ↦ ()) = _
    rw [ih, List.mapM_cons]
    rcases d.check with e | s
    · rfl
    · rcases rest.mapM Draft.check with e | all <;> rfl

/-- Everything is listed before the verdict is there. -/
theorem leaves_listDrafts (drafts : List Draft) :
    (listDrafts drafts).Leaves (.ok (verdictOn drafts)) { said := spoken (listing drafts) } := by
  rw [← flatMap_listDraft]
  refine (leaves_forM_lines _).bind_silent ?_
  rcases hfound : (rulePlaces drafts).findSome? ruleError? with - | e
  all_goals
    have hfirst := (findSome?_listDraft drafts 0).trans hfound
    simp only [hfirst, verdictOn, hfound, forM_check]
    exact leaves_pure _

/-- The exit status that a verdict stands for. -/
def statusOf : Except Error Unit → Nat
  | .ok _ => 0
  | .error e => e.exitCode

/-- What is said of a verdict. -/
def closing : Except Error Unit → String
  | .ok _ => "\nStrategy configuration is valid.\n"
  | .error (.rule list index text error) =>
    "\nerror: " ++ (Error.rule list index text error).message ++ "\n"
  | .error e => report e ++ "\n"

variable {disk : Disk} {path : String} {drafts : List Draft}

theorem run_validate (h : loadDrafts disk path = .ok drafts) :
    (Invocation.validate path).run disk = (statusOf (verdictOn drafts),
      { said := "Validating strategy: " ++ path ++ "\n" ++ spoken (listing drafts) ++
          closing (verdictOn drafts) }) := by
  refine Meets.finish (p := fun x ↦ x = _) ?_
  show (validate disk path).Meets _
  unfold validate
  refine (leaves_say _).meets ?_
  rw [h, need_ok_bind]
  refine (leaves_listDrafts drafts).meets ?_
  rcases verdictOn drafts with (_ | _ | ⟨list, index, text, error⟩ | _ | _ | _ | _ | _) | -
  case ok | error.rule =>
    refine (leaves_say _).meets (meets_pure ?_)
    simp [ended, Transcript.append_def, closing, statusOf, String.append_assoc]
  all_goals
    refine meets_throw ?_
    simp [ended, Transcript.append_def, closing, statusOf, String.append_assoc]

/-! ### Sweeps over the same file -/

/-- What a sweep does with its strategies once they are accepted. -/
def sweepOver (disk : Disk) (settings : Settings) (terms : Terms Float)
    (range : Settings.DateRange) (data : String) (output : Option String)
    (all : List (Strategy Float)) : Job Nat := do
  let bars ← need (loadBars disk data range)
  let _ ← need settings.workers
  let results := (sweep all terms bars false).map fun r ↦ r.mapError Error.ofRun
  let runs := all.zip results
  say sweepHeading
  runs.forM fun r ↦ say (sweepRow r.1 r.2)
  match output with
  | some path => do
    let reports := (completed runs).map fun r ↦ r.2.report r.1 settings.spreadReports
    (numbered path 0 reports).forM fun f ↦ write disk f.1 f.2
    say ("\nReports written to: " ++ path ++ ".N")
  | none => pure ()
  pure (sweepStatus runs)

variable {config : String} {settings : Settings} {terms : Terms Float}
  {range : Settings.DateRange}

theorem sweepAll_eq (h : loadDrafts disk path = .ok drafts)
    (hsetting : RunSetting disk config settings terms range) (data : String)
    (output : Option String) : sweepAll disk config data path output = (do
      say ("Loading config from " ++ config)
      let all ← need (drafts.mapM Draft.check)
      sweepOver disk settings terms range data output all) := by
  unfold sweepAll
  rw [hsetting.config, h]
  simp only [need_ok_bind, hsetting.parameters, hsetting.dates]
  rfl

/-- A sweep over drafts of which one is refused ends there, whatever else it was to do. -/
theorem leaves_sweep_of_refused (h : loadDrafts disk path = .ok drafts)
    (hsetting : RunSetting disk config settings terms range) {e : Error}
    (he : FirstRefused drafts e) (data : String) (output : Option String) :
    (sweepAll disk config data path output).Leaves (.error e)
      { said := "Loading config from " ++ config ++ "\n" } := by
  rw [sweepAll_eq h hsetting, mapM_check_eq_error_iff.2 he]
  exact (leaves_say _).bind_silent (leaves_need (.error e)).bind_error

/-- The sweep goes on with these strategies, over whatever bars and with or without reports. -/
def SweepsOver (disk : Disk) (config path : String) (settings : Settings) (terms : Terms Float)
    (range : Settings.DateRange) (all : List (Strategy Float)) : Prop :=
  ∀ data output, sweepAll disk config data path output = (do
    say ("Loading config from " ++ config)
    sweepOver disk settings terms range data output all)

/-- A sweep that goes on without a path of bars ends for the want of it. -/
theorem SweepsOver.leaves_without_bars {all : List (Strategy Float)}
    (h : SweepsOver disk config path settings terms range all) :
    (sweepAll disk config "" path none).Leaves (.error (.data (.noName "")))
      { said := "Loading config from " ++ config ++ "\n" } := by
  have hbars : (sweepOver disk settings terms range "" none all).Leaves
      (.error (.data (.noName ""))) {} :=
    (leaves_need (.error (.data (.noName "")))).bind_error
  rw [h]
  exact (leaves_say _).bind_silent hbars

/-- **A sweep goes on exactly if all drafts are accepted.** If it is refused one, it ends with an
error that is not about bars, so it does not do what a sweep without bars does that goes on. -/
theorem exists_sweepsOver_iff (h : loadDrafts disk path = .ok drafts)
    (hsetting : RunSetting disk config settings terms range) :
    (∃ all, SweepsOver disk config path settings terms range all) ↔
      ∀ d ∈ drafts, ∃ s, d.check = .ok s := by
  rw [← exists_mapM_check_iff]
  constructor
  · rintro ⟨all, hgoes⟩
    rcases hmap : drafts.mapM Draft.check with e | all'
    · have hrefused := mapM_check_eq_error_iff.1 hmap
      have heq := (leaves_sweep_of_refused h hsetting hrefused "" none {}).symm.trans
        (hgoes.leaves_without_bars {})
      obtain ⟨-, d, -, -, -, hd⟩ := hrefused
      obtain rfl : e = .data (.noName "") := Except.error.inj (Prod.mk.inj heq).1
      rcases Draft.check_eq_error hd with ⟨key, fault, hvalue⟩ | ⟨list, i, text, error, hrule⟩
      · cases hvalue
      · cases hrule
    · exact ⟨all', rfl⟩
  · rintro ⟨all, hall⟩
    refine ⟨all, fun data output ↦ ?_⟩
    rw [sweepAll_eq h hsetting, hall]
    rfl

/-! ### The answer of a validation -/

/-- **A validation answers what a run asks.** It lists every rule of every strategy of the file and
comes to a verdict: the file is accepted exactly if all of its strategies are, and so exactly if a
sweep gets past them. A file with a text that is no rule is refused for the first one in the order
of the document, any other for the first strategy that is refused, which is what a sweep is always
refused for. -/
theorem validate_answers (h : loadDrafts disk path = .ok drafts) :
    ∃ verdict, Judges drafts verdict ∧
      (listDrafts drafts).Leaves (.ok verdict) { said := spoken (listing drafts) } ∧
      (Invocation.validate path).run disk = (statusOf verdict,
        { said := "Validating strategy: " ++ path ++ "\n" ++ spoken (listing drafts) ++
            closing verdict }) ∧
      ∀ config settings terms range, RunSetting disk config settings terms range →
        (verdict = .ok () ↔ ∃ all, SweepsOver disk config path settings terms range all) ∧
        ∀ e, FirstRefused drafts e → ∀ data output,
          (Invocation.sweep config data path output).run disk = (e.exitCode,
            { said := "Loading config from " ++ config ++ "\n" ++ report e ++ "\n" }) := by
  have hjudges := judges_verdictOn drafts
  refine ⟨verdictOn drafts, hjudges, leaves_listDrafts drafts, run_validate h,
    fun config settings terms range hsetting ↦ ⟨?_, fun e he data output ↦ ?_⟩⟩
  · rw [hjudges.accepts, exists_sweepsOver_iff h hsetting]
  · exact (leaves_sweep_of_refused h hsetting he data output).finish_error

namespace Sample

/-- A document with two strategies: the first has a stop-loss below zero, and the second an exit
rule without a text. -/
def faultyDocument : Json.Value :=
  .array
    [.object [("stop_loss", .number ['-', '1'])],
      .object [("exit_rules", .array [.string ""])]]

def faultyDrafts : List Draft :=
  [{ stopLoss := some (-1) }, { exitRules := [""] }]

/-- A disk with the document and with a file of settings that sets nothing. -/
def faultyDisk : Disk :=
  .ofResults
    [("faulty.json", .ok (faultyDocument.compact.toList.map Char.toUInt8)), ("empty.ini", .ok [])]
    []

theorem loadDrafts_faulty : loadDrafts faultyDisk "faulty.json" = .ok faultyDrafts := by
  have hnumber : Json.IsNumber ['-', '1'] := by
    have hone := Json.IsMagnitude.parts (Json.isWhole_digitsOf 1) .absent .absent
    simpa [show Decimal.digitsOf 1 = ['1'] from rfl] using hone.isNumber_negative
  have hwritten : Json.Written faultyDocument := by
    refine .array (List.forall_mem_cons.2 ⟨?_, List.forall_mem_singleton.2 ?_⟩)
    · simp [Json.Written.number hnumber]
    · simpa using Json.Written.array_map Json.Written.string [""]
  have hascii : ∀ c ∈ faultyDocument.compact.toList, c.toNat < 0x80 := by
    simp [Json.Value.compact, faultyDocument, Json.Value.chars, Json.Value.itemChars,
      Json.Value.entryChars, Json.bracketed, Json.quoted, Json.escape, Json.Spacing.compact]
  have htext : readText faultyDisk "faulty.json" = .ok faultyDocument.compact :=
    readText_of_ascii hascii (by simp [faultyDisk, Disk.ofResults])
  have hlist : Draft.listOfJson? faultyDocument = some faultyDrafts := by decide +kernel
  rw [loadDrafts_of_document rfl htext, Draft.readDocument_of_isText hwritten.isText_both.1,
    if_pos (by decide +kernel), hlist]
  rfl

end Sample

/-- The first strategy of the sample has a bad number, but the validation blames the rule of the
second. A sweep blames the number. -/
theorem sample_validate_answers :
    ∃ error e, FirstBadRule Sample.faultyDrafts ⟨1, .exit, 0⟩ "" error ∧
      FirstRefused Sample.faultyDrafts e ∧
      ((Invocation.validate "faulty.json").run Sample.faultyDisk).1 = 4 ∧
      ((Invocation.sweep "empty.ini" "bars.csv" "faulty.json" none).run Sample.faultyDisk).1 =
        2 := by
  obtain ⟨verdict, hjudges, -, hrun, hsweep⟩ := validate_answers Sample.loadDrafts_faulty
  obtain ⟨error, hparse⟩ : ∃ error, Expr.parse "" = .error error := ⟨_, rfl⟩
  have hplaces : rulePlaces Sample.faultyDrafts = [(⟨1, .exit, 0⟩, "")] := rfl
  have hbad : FirstBadRule Sample.faultyDrafts ⟨1, .exit, 0⟩ "" error := by
    refine ⟨rfl, hparse, fun q other hq hother ↦ ?_⟩
    rw [← mem_rulePlaces, hplaces, List.mem_singleton] at hother
    obtain ⟨rfl, -⟩ := Prod.mk.inj hother
    exact absurd hq hq.asymm
  have hnot : ¬ AllParse Sample.faultyDrafts := by
    intro hall
    obtain ⟨tree, htree⟩ := hall ⟨1, .exit, 0⟩ "" rfl
    rw [hparse] at htree
    cases htree
  have hrefused : FirstRefused Sample.faultyDrafts
      (.value "strategy" "stop_loss" (.negative (-1))) :=
    ⟨[], { stopLoss := some (-1) }, _, rfl, nofun, rfl⟩
  have hsetting : ∃ settings terms range,
      RunSetting Sample.faultyDisk "empty.ini" settings terms range := by
    have htext : readText Sample.faultyDisk "empty.ini" = .ok "" :=
      readText_of_ascii nofun (by simp [Sample.faultyDisk, Disk.ofResults])
    exact ⟨_, _, _, by rw [loadSettings, htext]; rfl, rfl, rfl⟩
  obtain ⟨settings, terms, range, hsetting⟩ := hsetting
  refine ⟨error, _, hbad, hrefused, ?_, ?_⟩
  · obtain ⟨p, text, error, -, hverdict⟩ := hjudges.badRule hnot
    rw [hrun, hverdict]
    rfl
  · rw [(hsweep _ _ _ _ hsetting).2 _ hrefused]
    rfl

end Command

end BarReplay
