import BarReplay.Proofs.Rule.Canonical
import BarReplay.Proofs.Rule.Extent
import BarReplay.Proofs.Rule.Reader
import BarReplay.Proofs.Strategy.Acceptance

/-!
# Where reading stops

The reader stops where the text goes wrong: what stands before that place can be completed to a rule
(`completable_of_parseChars`), so every fault is in what stands behind it.

A completion of a part of a rule has to fit into the whole, whatever that is. So a part is completed
before everything that could follow it, and what has been read before it is kept as it is
(`Takes.followed_viable`). The place of the fault is always behind blanks, and what is expected
there is completed by a fixed text: a factor by `true`, a sign and the operand after it by a
comparison with a field, an operand by a field, and an open bracket by its other half.
-/

namespace BarReplay

namespace Rule

/-- A result that is mapped is an error if it was one. -/
theorem except_map_eq_error_iff {ε β γ : Type} {f : β → γ} {x : Except ε β} {e : ε} :
    x.map f = .error e ↔ x = .error e := by
  cases x <;> simp [Except.map]

/-! ### Completions -/

/-- What stands before the rest can be completed to such a piece, whatever follows then except more
of a word. -/
def Viable (Piece : List Char → List Char → Prop) (cs rest : List Char) : Prop :=
  ∃ done completion, cs = done ++ rest ∧ Text.startsWord completion = false ∧
    ∀ more, Text.startsWord more = false → Piece (done ++ (completion ++ more)) more

/-- A phrase of this kind stands at the head of the text. -/
def Reads (phrase : Phrase) (cs rest : List Char) : Prop :=
  ∃ e, Derives phrase cs e rest

theorem allBlank_takeWhile (cs : List Char) : AllBlank (cs.takeWhile Text.isBlank) :=
  fun _ hc ↦ List.mem_takeWhile_imp hc

theorem startsWord_append {text more : List Char} (htext : Text.startsWord text = false)
    (hmore : Text.startsWord more = false) : Text.startsWord (text ++ more) = false := by
  cases text with
  | nil => exact hmore
  | cons c text => exact htext

section Viable

variable {First Second Piece Piece' : List Char → List Char → Prop} {cs cs' rest : List Char}

theorem Viable.mono (h : Viable Piece cs rest)
    (hpiece : ∀ {cs rest}, Piece cs rest → Piece' cs rest) : Viable Piece' cs rest := by
  obtain ⟨done, completion, hcs, hcompletion, hdone⟩ := h
  exact ⟨done, completion, hcs, hcompletion, fun more hmore ↦ hpiece (hdone more hmore)⟩

/-- What can be completed can be completed after a piece that is read. -/
theorem Takes.followed_viable (hfirst : Takes First cs cs') (hsecond : Viable Second cs' rest) :
    Viable (Followed First Second) cs rest := by
  obtain ⟨taken, rfl, htaken⟩ := hfirst
  obtain ⟨done, completion, rfl, hcompletion, hdone⟩ := hsecond
  refine ⟨taken ++ done, completion, (List.append_assoc ..).symm, hcompletion, fun more hmore ↦ ?_⟩
  have hends : EndsLike (done ++ rest) (done ++ (completion ++ more)) :=
    (endsLike_of_startsWord (startsWord_append hcompletion hmore)).append done
  rw [List.append_assoc]
  exact ⟨_, htaken _ hends, hdone more hmore⟩

/-- What can be completed can be completed together with what has to follow it. -/
theorem Viable.followed (hfirst : Viable First cs rest) (text : List Char)
    (htext : Text.startsWord text = false)
    (hsecond : ∀ more, Text.startsWord more = false → Second (text ++ more) more) :
    Viable (Followed First Second) cs rest := by
  obtain ⟨done, completion, rfl, hcompletion, hdone⟩ := hfirst
  refine ⟨done, completion ++ text, rfl, startsWord_append hcompletion htext, fun more hmore ↦ ?_⟩
  rw [List.append_assoc]
  exact ⟨_, hdone _ (startsWord_append htext hmore), hsecond more hmore⟩

/-- Behind blanks, a piece that is written after any blanks completes the text. -/
theorem viable_skipBlank (text : List Char) (htext : Text.startsWord text = false)
    (h : ∀ blanks more, AllBlank blanks → Text.startsWord more = false →
      Piece (blanks ++ (text ++ more)) more) (cs : List Char) :
    Viable Piece cs (Text.skipBlank cs) :=
  ⟨cs.takeWhile Text.isBlank, text, List.takeWhile_append_dropWhile.symm, htext,
    fun more hmore ↦ h _ more (allBlank_takeWhile cs) hmore⟩

end Viable

/-! ### What completes a text behind blanks -/

theorem viable_factor (cs : List Char) : Viable (Reads .factor) cs (Text.skipBlank cs) := by
  have hword : IsSpelled "true".toList := by decide
  exact viable_skipBlank " true".toList rfl
    (fun _ _ hblank hmore ↦ ⟨_, .true (spaced_word hword hblank hmore)⟩) cs

theorem viable_field (cs : List Char) : Viable (Side (.field .rsi)) cs (Text.skipBlank cs) :=
  viable_skipBlank " rsi".toList rfl
    (fun _ _ hblank hmore ↦ .field (spaced_word (isSpelled_name .rsi) hblank hmore)) cs

theorem viable_closing (cs : List Char) :
    Viable (Spaced (Symbol [')'])) cs (Text.skipBlank cs) :=
  viable_skipBlank [')'] rfl (fun _ _ hblank _ ↦ .mk hblank .mk) cs

/-- A sign and an operand after it. -/
theorem viable_sign (cs : List Char) :
    Viable (Followed (Spaced (Symbol Comparison.lt.sign.toList)) (Side (.field .rsi))) cs
      (Text.skipBlank cs) := by
  have hsign : Viable (Spaced (Symbol Comparison.lt.sign.toList)) cs (Text.skipBlank cs) :=
    viable_skipBlank Comparison.lt.sign.toList rfl (fun _ _ hblank _ ↦ .mk hblank .mk) cs
  refine hsign.followed " rsi".toList rfl fun more hmore ↦ ?_
  exact .field (spaced_word (isSpelled_name .rsi) (List.forall_mem_nil _) hmore)

/-! ### Where each part stops -/

theorem rest_of_number {cs : List Char} {stop : Stop} (h : bare (number cs) = .error stop) :
    stop.rest = cs := by
  rw [bare_number] at h
  split at h
  · cases h
    rfl
  · split_ifs at h
    cases h
    rfl

theorem rest_of_fieldWord {c : Char} {cs : List Char} {stop : Stop}
    (h : bare (fieldWord c cs) = .error stop) : stop.rest = c :: cs := by
  rw [bare_fieldWord] at h
  split at h
  · cases h
  · cases h
    rfl

/-- An operand is refused where it should start. -/
theorem rest_of_operand {cs : List Char} {stop : Stop} (h : bare (operand cs) = .error stop) :
    stop.rest = Text.skipBlank cs := by
  rw [bare_operand] at h
  split at h
  next hskip =>
    cases h
    exact hskip.symm
  next c rest hskip =>
    rw [hskip]
    split_ifs at h
    · exact rest_of_number (except_map_eq_error_iff.1 h)
    · exact rest_of_fieldWord (except_map_eq_error_iff.1 h)
    · cases h
      rfl

/-- A sign is refused where it should start. -/
theorem rest_of_comparisonSign {cs : List Char} {stop : Stop}
    (h : bare (comparisonSign cs) = .error stop) : stop.rest = Text.skipBlank cs := by
  rw [bare_comparisonSign] at h
  split at h
  · cases h
  · cases h
    rfl

/-- A comparison is refused at one of its three parts, or as a whole. -/
theorem viable_of_comparison {cs : List Char} {stop : Stop}
    (h : bare (comparison cs) = .error stop) : Viable (Reads .factor) cs stop.rest := by
  have hfield {left : Operand Float} : ¬ (IsConstant left ∧ IsConstant (.field .rsi)) := by
    rintro ⟨-, x, hx⟩
    cases hx
  rw [bare_comparison] at h
  obtain hleft | ⟨⟨left, r⟩, hleft, h⟩ := except_bind_eq_error_iff.1 h
  · rw [rest_of_operand hleft]
    exact viable_factor cs
  have first : Side left cs r := .of_yields (bare_eq_ok_iff.1 hleft)
  obtain hsign | ⟨⟨sign, r'⟩, hsign, h⟩ := except_bind_eq_error_iff.1 h
  · rw [rest_of_comparisonSign hsign]
    refine (first.takes.followed_viable (viable_sign r)).mono ?_
    rintro cs rest ⟨_, left, _, between, right⟩
    exact ⟨_, .compare left between right hfield⟩
  have between : Spaced (Symbol sign.sign.toList) r r' :=
    (spaced_symbol_iff (startsPrintable_sign sign)).2
      (eq_of_sign? (yields_comparisonSign_iff.1 (bare_eq_ok_iff.1 hsign)))
  obtain hright | ⟨⟨right, r''⟩, hright, h⟩ := except_bind_eq_error_iff.1 h
  · rw [rest_of_operand hright]
    have hbetween := takes_of_spaced_symbol between
    refine (first.takes.followed_viable (hbetween.followed_viable (viable_field r'))).mono ?_
    rintro cs rest ⟨_, left, _, between, right⟩
    exact ⟨_, .compare left between right hfield⟩
  · -- two constants are refused where the comparison starts
    have hrest : stop.rest = Text.skipBlank cs := by
      dsimp only at h
      split at h
      · cases h
        rfl
      · cases h
    rw [hrest]
    exact viable_factor cs

/-- A bracket that is not closed is refused where it should be closed. -/
theorem rest_of_closing {cs : List Char} {stop : Stop} (h : closing cs = .error stop) :
    stop.rest = Text.skipBlank cs := by
  rw [closing] at h
  split at h
  · cases h
  · cases h
    rfl

/-! ### Phrases

The recursion is that of the reader. A chain is given what has been derived of it so far, as in
`Derives.of_disjuncts`.
-/

mutual

theorem viable_of_disjunction {cs : List Char} {stop : Stop}
    (h : bare (disjunction cs) = .error stop) : Viable (Reads .disjunction) cs stop.rest := by
  rw [bare_disjunction] at h
  obtain hleft | ⟨⟨left, cs'⟩, hleft, hmore⟩ := except_bind_eq_error_iff.1 h
  · exact (viable_of_conjunction hleft).mono fun ⟨e, only⟩ ↦ ⟨e, .single only⟩
  · have hyields := bare_eq_ok_iff.1 hleft
    have hlength : cs'.length < cs.length := hyields.holds
    exact viable_of_disjuncts (.single (.of_conjunction hyields)) hmore
termination_by (cs.length, 3)

theorem viable_of_disjuncts {ds cs : List Char} {left : Expr Float} {stop : Stop}
    (hleft : Derives .disjunction ds left cs) (h : bare (disjuncts left cs) = .error stop) :
    Viable (Reads .disjunction) ds stop.rest := by
  rw [bare_disjuncts] at h
  split at h
  · cases h
  next cs' hkey =>
    have hlength := keyword?_length_lt (by decide) hkey
    have word : Keyword "or" cs cs' := (keyword?_eq_some_iff (by decide)).1 hkey
    obtain hright | ⟨⟨right, cs''⟩, hright, hmore⟩ := except_bind_eq_error_iff.1 h
    · have hchain := word.takes.followed_viable (viable_of_conjunction hright)
      refine (hleft.takes.followed_viable hchain).mono ?_
      rintro cs rest ⟨_, left, _, word, e, right⟩
      exact ⟨_, .or left word right⟩
    · have hyields := bare_eq_ok_iff.1 hright
      have hlength' : cs''.length < cs'.length := hyields.holds
      exact viable_of_disjuncts (.or hleft word (.of_conjunction hyields)) hmore
termination_by (cs.length, 0)

theorem viable_of_conjunction {cs : List Char} {stop : Stop}
    (h : bare (conjunction cs) = .error stop) : Viable (Reads .conjunction) cs stop.rest := by
  rw [bare_conjunction] at h
  obtain hleft | ⟨⟨left, cs'⟩, hleft, hmore⟩ := except_bind_eq_error_iff.1 h
  · exact (viable_of_factor hleft).mono fun ⟨e, only⟩ ↦ ⟨e, .lone only⟩
  · have hyields := bare_eq_ok_iff.1 hleft
    have hlength : cs'.length < cs.length := hyields.holds
    exact viable_of_conjuncts (.lone (.of_factor hyields)) hmore
termination_by (cs.length, 2)

theorem viable_of_conjuncts {ds cs : List Char} {left : Expr Float} {stop : Stop}
    (hleft : Derives .conjunction ds left cs) (h : bare (conjuncts left cs) = .error stop) :
    Viable (Reads .conjunction) ds stop.rest := by
  rw [bare_conjuncts] at h
  split at h
  · cases h
  next cs' hkey =>
    have hlength := keyword?_length_lt (by decide) hkey
    have word : Keyword "and" cs cs' := (keyword?_eq_some_iff (by decide)).1 hkey
    obtain hright | ⟨⟨right, cs''⟩, hright, hmore⟩ := except_bind_eq_error_iff.1 h
    · have hchain := word.takes.followed_viable (viable_of_factor hright)
      refine (hleft.takes.followed_viable hchain).mono ?_
      rintro cs rest ⟨_, left, _, word, e, right⟩
      exact ⟨_, .and left word right⟩
    · have hyields := bare_eq_ok_iff.1 hright
      have hlength' : cs''.length < cs'.length := hyields.holds
      exact viable_of_conjuncts (.and hleft word (.of_factor hyields)) hmore
termination_by (cs.length, 0)

theorem viable_of_factor {cs : List Char} {stop : Stop} (h : bare (factor cs) = .error stop) :
    Viable (Reads .factor) cs stop.rest := by
  rw [bare_factor] at h
  split at h
  next cs' hnot =>
    have hlength := keyword?_length_lt (by decide) hnot
    have word : Keyword "not" cs cs' := (keyword?_eq_some_iff (by decide)).1 hnot
    have hinner := viable_of_factor (except_map_eq_error_iff.1 h)
    refine (word.takes.followed_viable hinner).mono ?_
    rintro cs rest ⟨_, word, e, inner⟩
    exact ⟨_, .not word inner⟩
  next hnot =>
    split at h
    next cs' hopen =>
      have hlength : cs'.length < cs.length := by
        have hle := Text.skipBlank_length_le cs
        rw [hopen] at hle
        exact hle
      have opening : Spaced (Symbol ['(']) cs cs' :=
        (spaced_symbol_iff startsPrintable_opening).2 hopen
      have hopening := takes_of_spaced_symbol opening
      obtain hinner | ⟨⟨inner, cs''⟩, hinner, h⟩ := except_bind_eq_error_iff.1 h
      · have hbrackets : Viable (Followed (Reads .disjunction) (Spaced (Symbol [')']))) cs'
            stop.rest :=
          (viable_of_disjunction hinner).followed [')'] rfl fun more _ ↦ spaced_of_token .mk
        refine (hopening.followed_viable hbrackets).mono ?_
        rintro cs rest ⟨_, opening, _, ⟨e, inner⟩, closing⟩
        exact ⟨_, .brackets opening inner closing⟩
      · obtain hclosing | ⟨_, -, h⟩ := except_bind_eq_error_iff.1 h
        swap
        · cases h
        rw [rest_of_closing hclosing]
        have hderives := Derives.of_disjunction (bare_eq_ok_iff.1 hinner)
        have hbrackets := hderives.takes.followed_viable (viable_closing cs'')
        refine (hopening.followed_viable hbrackets).mono ?_
        rintro cs rest ⟨_, opening, _, inner, closing⟩
        exact ⟨_, .brackets opening inner closing⟩
    · split at h
      · cases h
      · split at h
        · cases h
        · exact viable_of_comparison h
termination_by (cs.length, 1)

end

/-! ### Whole texts -/

/-- What stands before the rest can be completed to a rule. -/
def Completable (cs rest : List Char) : Prop :=
  ∃ done completion e, cs = done ++ rest ∧ IsRule (done ++ completion) e

/-- Blanks before a text belong to what is completed. -/
theorem Completable.of_skipBlank {cs rest : List Char} (h : Completable (Text.skipBlank cs) rest) :
    Completable cs rest := by
  obtain ⟨done, completion, e, hskip, blanks, hblank, hderives⟩ := h
  refine ⟨cs.takeWhile Text.isBlank ++ done, completion, e, ?_, blanks, hblank, hderives.congr ?_⟩
  · rw [List.append_assoc, ← hskip]
    exact List.takeWhile_append_dropWhile.symm
  · rw [List.append_assoc, skipBlank_append (allBlank_takeWhile cs)]

theorem Viable.completable {cs rest : List Char} (h : Viable (Reads .disjunction) cs rest) :
    Completable cs rest := by
  obtain ⟨done, completion, hcs, -, hdone⟩ := h
  obtain ⟨e, hderives⟩ := hdone [] rfl
  rw [List.append_nil] at hderives
  exact ⟨done, completion, e, hcs, [], List.forall_mem_nil _, hderives⟩

/-- A text with a rule at its head is a rule up to what follows the rule and the blanks after it. -/
theorem Derives.completable {cs rest : List Char} {e : Expr Float}
    (h : Derives .disjunction cs e rest) : Completable cs (Text.skipBlank rest) := by
  obtain ⟨taken, rfl, htaken⟩ := h.takes
  have hends : EndsLike rest (rest.takeWhile Text.isBlank) := by
    intro hstarts
    cases rest with
    | nil => rfl
    | cons c cs =>
      rw [List.takeWhile_cons]
      split
      · exact hstarts
      · rfl
  refine ⟨taken ++ rest.takeWhile Text.isBlank, [], e, ?_, _, allBlank_takeWhile rest, ?_⟩
  · rw [List.append_assoc]
    exact congrArg (taken ++ ·) List.takeWhile_append_dropWhile.symm
  · rw [List.append_nil]
    exact htaken _ hends

/-- **A text that is refused goes wrong where it is refused.** What stands before that place can be
completed to a rule. -/
theorem completable_of_parseChars {cs : List Char} {stop : Stop}
    (h : parseChars cs = .error stop) : Completable cs stop.rest := by
  rw [parseChars_eq] at h
  split at h
  · cases h
    have hword : IsSpelled "true".toList := by decide
    have word : Keyword "true" ("true".toList ++ []) [] := spaced_of_token (hword.word rfl)
    exact ⟨[], _, _, rfl, [], List.forall_mem_nil _, .single (.lone (.true word))⟩
  · obtain hstop | ⟨⟨e, rest⟩, hread, htrailing⟩ := except_bind_eq_error_iff.1 h
    · exact (viable_of_disjunction hstop).completable.of_skipBlank
    · have hrest : stop.rest = Text.skipBlank rest := by
        dsimp only at htrailing
        split at htrailing
        · cases htrailing
        · cases htrailing
          rfl
      rw [hrest]
      exact (Derives.of_disjunction (bare_eq_ok_iff.1 hread)).completable.of_skipBlank

end Rule

end BarReplay
