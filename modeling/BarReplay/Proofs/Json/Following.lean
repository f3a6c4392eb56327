import BarReplay.Proofs.Json.Grammar
import BarReplay.Proofs.Rule.Numbers

/-!
# What follows a value

A value ends where it ends, whatever follows it: a text that starts with a value still does so when
it goes on (`Derives.append`). Only a number at the very end of a text is different, as more digits
could follow. A string never ends with a text, so half a surrogate pair in it does not find its
other half behind the end (`StringText.trail?_append`).

A list of texts, each of them a value, is therefore an array when it is joined with commas and put
in brackets (`derives_joined`).
-/

namespace BarReplay.Json

/-! ### Gaps -/

theorem skipGap_append_of_eq {cs rest : List Char} {c : Char} (h : skipGap cs = c :: rest)
    (more : List Char) : skipGap (cs ++ more) = c :: (rest ++ more) := by
  rw [skipGap, List.dropWhile_append, ← skipGap, h]
  rfl

theorem skipGap_append_of_gap {gap : List Char} (h : skipGap gap = []) (more : List Char) :
    skipGap (gap ++ more) = skipGap more := by
  rw [skipGap, List.dropWhile_append, ← skipGap, h]
  rfl

theorem ne_nil_of_skipGap {cs rest : List Char} {c : Char} (h : skipGap cs = c :: rest) :
    cs ≠ [] := by
  rintro rfl
  cases h

/-! ### Strings -/

theorem trail?_append {cs rest : List Char} {u : Nat} (h : trail? cs = some (u, rest))
    (more : List Char) : trail? (cs ++ more) = some (u, rest ++ more) := by
  unfold trail? at h
  split at h
  next a b c d tail =>
    simp only [Option.map_eq_some_iff, Prod.mk.injEq] at h
    obtain ⟨v, hunit, rfl, rfl⟩ := h
    simp only [List.cons_append, trail?, hunit, Option.map_some]
  next => cases h

/-- A string holds no half of an escape at its end that more text would complete. -/
theorem StringText.trail?_append {cs rest : List Char} {text : Option (List Char)}
    (h : StringText cs text rest) (hnone : trail? cs = none) (more : List Char) :
    trail? (cs ++ more) = none := by
  cases h with
  | close => rfl
  | @long cs after _ _ _ escape tail =>
    unfold longEscape? at escape
    split at escape
    · simpa [trail?] using hnone
    · cases escape
  | @short e c cs _ _ escape tail =>
    have hne : e ≠ 'u' := by
      rintro rfl
      cases escape
    simp [trail?, hne]
  | @plain c cs _ _ raw other tail =>
    have hne : c ≠ '\\' := fun h ↦ raw (.inr h)
    simp [trail?, hne]

theorem longEscape?_append {cs after rest : List Char} {c : Option Char}
    {text : Option (List Char)} (h : longEscape? cs = some (c, after))
    (tail : StringText after text rest) (more : List Char) :
    longEscape? (cs ++ more) = some (c, after ++ more) := by
  unfold longEscape? at h
  split at h
  next x y z w behind =>
    simp only [Option.bind_eq_bind, Option.bind_eq_some_iff] at h
    obtain ⟨u, hunit, h⟩ := h
    simp only [List.cons_append, longEscape?, hunit, Option.bind_eq_bind, Option.bind_some]
    split at h
    next hlead =>
      rw [if_pos hlead]
      split at h
      next v r htrail =>
        cases h
        rw [trail?_append htrail]
      next htrail =>
        cases h
        rw [tail.trail?_append htrail]
    next hlead =>
      rw [if_neg hlead]
      cases h
      rfl
  next => cases h

theorem StringText.append {cs rest : List Char} {text : Option (List Char)}
    (h : StringText cs text rest) (more : List Char) :
    StringText (cs ++ more) text (rest ++ more) := by
  induction h with
  | close => exact .close
  | long escape tail ih => exact .long (longEscape?_append escape tail more) ih
  | short escape tail ih => exact .short escape ih
  | plain raw other tail ih => exact .plain raw other ih

/-! ### Numbers and literals -/

section Numbers

open Decimal

variable {cs ds text rest : List Char} (more : List Char)

/-- Digits that end inside a text are not made more by what follows the text. -/
theorem scanDigits_append_of_ne_nil (h : scanDigits cs = (ds, rest)) (hrest : rest ≠ []) :
    scanDigits (cs ++ more) = (ds, rest ++ more) := by
  obtain ⟨rfl, hdigits⟩ := scanDigits_sound h
  have hstop : NoDigit rest := by
    have hany := any_head?_dropWhile (p := Char.isDigit) (ds ++ rest)
    rwa [(Prod.mk.inj h).2] at hany
  rw [List.append_assoc]
  refine scanDigits_append hdigits ?_
  cases rest with
  | nil => exact absurd rfl hrest
  | cons c tail => exact hstop

/-- At least one digit at the head of a text. -/
def someDigits? (cs : List Char) : Option (List Char × List Char) :=
  match scanDigits cs with
  | ([], _) => none
  | (ds, rest) => some (ds, rest)

theorem someDigits?_eq_some_iff :
    someDigits? cs = some (ds, rest) ↔ scanDigits cs = (ds, rest) ∧ ds ≠ [] := by
  rw [someDigits?]
  rcases scanDigits cs with ⟨_ | ⟨d, digits⟩, after⟩
  · simp only [reduceCtorEq, Prod.mk.injEq, false_iff]
    rintro ⟨⟨rfl, -⟩, hnil⟩
    exact hnil rfl
  · simp only [Option.some.injEq, Prod.mk.injEq]
    refine ⟨fun h ↦ ⟨h, ?_⟩, And.left⟩
    rw [← h.1]
    exact List.cons_ne_nil d digits

theorem someDigits?_append (h : someDigits? cs = some (ds, rest)) (hrest : rest ≠ []) :
    someDigits? (cs ++ more) = some (ds, rest ++ more) := by
  obtain ⟨hscan, hsome⟩ := someDigits?_eq_some_iff.1 h
  exact someDigits?_eq_some_iff.2 ⟨scanDigits_append_of_ne_nil more hscan hrest, hsome⟩

/-- A whole part is the digits at the head of the text, with no zero before others. -/
theorem scanWhole?_eq_some_iff : scanWhole? cs = some (ds, rest) ↔
    someDigits? cs = some (ds, rest) ∧ ∀ d tail, ds ≠ '0' :: d :: tail := by
  rw [scanWhole?, someDigits?]
  rcases scanDigits cs with ⟨_ | ⟨d, digits⟩, after⟩
  · simp
  · split
    next heq => cases heq
    next tail after' heq =>
      cases heq
      simp only [reduceCtorEq, Option.some.injEq, Prod.mk.injEq, false_iff]
      rintro ⟨⟨rfl, -⟩, hzero⟩
      exact hzero _ _ rfl
    next hnil hzero heq =>
      cases heq
      simp only [Option.some.injEq, Prod.mk.injEq]
      refine ⟨fun h ↦ ⟨h, ?_⟩, And.left⟩
      rw [← h.1]
      exact fun d tail heq ↦ hzero d tail heq

theorem scanWhole?_append (h : scanWhole? cs = some (ds, rest)) (hrest : rest ≠ []) :
    scanWhole? (cs ++ more) = some (ds, rest ++ more) := by
  obtain ⟨hscan, hzero⟩ := scanWhole?_eq_some_iff.1 h
  exact scanWhole?_eq_some_iff.2 ⟨someDigits?_append more hscan hrest, hzero⟩

theorem scanPoint?_point (cs : List Char) :
    scanPoint? ('.' :: cs) = (someDigits? cs).map fun x ↦ ('.' :: x.1, x.2) := by
  rw [scanPoint?, someDigits?]
  rcases scanDigits cs with ⟨_ | ⟨d, digits⟩, after⟩ <;> rfl

theorem scanPoint?_other {c : Char} (hc : c ≠ '.') (cs : List Char) :
    scanPoint? (c :: cs) = some ([], c :: cs) := by
  simp [scanPoint?, hc]

theorem scanPoint?_append (h : scanPoint? cs = some (ds, rest)) (hrest : rest ≠ []) :
    scanPoint? (cs ++ more) = some (ds, rest ++ more) := by
  cases cs with
  | nil =>
    cases h
    exact absurd rfl hrest
  | cons c cs =>
    by_cases hc : c = '.'
    · subst hc
      rw [scanPoint?_point, Option.map_eq_some_iff] at h
      obtain ⟨⟨digits, after⟩, hscan, heq⟩ := h
      obtain ⟨rfl, rfl⟩ := Prod.mk.inj heq
      rw [List.cons_append, scanPoint?_point, someDigits?_append more hscan hrest]
      rfl
    · rw [scanPoint?_other hc] at h
      cases h
      exact scanPoint?_other hc (cs ++ more)

section Power

variable {c x : Char} (hc : c = 'e' ∨ c = 'E')

include hc

theorem scanPower?_signed (hx : x = '+' ∨ x = '-') (cs : List Char) :
    scanPower? (c :: x :: cs) = (someDigits? cs).map fun y ↦ (c :: x :: y.1, y.2) := by
  have hstep : scanPower? (c :: x :: cs) =
      match scanDigits cs with
      | ([], _) => none
      | (ds, rest) => some (c :: x :: ds, rest) := by
    rcases hx with rfl | rfl
    all_goals
      rw [scanPower?]
      exact if_pos hc
  rw [hstep, someDigits?]
  rcases scanDigits cs with ⟨_ | ⟨d, digits⟩, after⟩ <;> rfl

theorem scanPower?_unsigned (hx : ¬ (x = '+' ∨ x = '-')) (cs : List Char) :
    scanPower? (c :: x :: cs) = (someDigits? (x :: cs)).map fun y ↦ (c :: y.1, y.2) := by
  rw [not_or] at hx
  have hstep : scanPower? (c :: x :: cs) =
      match scanDigits (x :: cs) with
      | ([], _) => none
      | (ds, rest) => some (c :: ds, rest) := by
    simp only [scanPower?, if_pos hc, List.cons.injEq, hx.1, hx.2, false_and, false_imp_iff,
      implies_true]
    rfl
  rw [hstep, someDigits?]
  rcases scanDigits (x :: cs) with ⟨_ | ⟨d, digits⟩, after⟩ <;> rfl

end Power

theorem scanPower?_other {c : Char} (hc : ¬ (c = 'e' ∨ c = 'E')) (cs : List Char) :
    scanPower? (c :: cs) = some ([], c :: cs) := by
  rw [scanPower?.eq_def]
  simp only [if_neg hc]

theorem scanPower?_append (h : scanPower? cs = some (ds, rest)) (hrest : rest ≠ []) :
    scanPower? (cs ++ more) = some (ds, rest ++ more) := by
  match cs with
  | [] =>
    cases h
    exact absurd rfl hrest
  | c :: cs =>
    by_cases hc : c = 'e' ∨ c = 'E'
    · match cs with
      | [] => simp [scanPower?, hc, scanDigits] at h
      | x :: cs =>
        by_cases hx : x = '+' ∨ x = '-'
        · rw [scanPower?_signed hc hx, Option.map_eq_some_iff] at h
          obtain ⟨⟨digits, after⟩, hscan, heq⟩ := h
          obtain ⟨rfl, rfl⟩ := Prod.mk.inj heq
          rw [List.cons_append, List.cons_append, scanPower?_signed hc hx,
            someDigits?_append more hscan hrest]
          rfl
        · rw [scanPower?_unsigned hc hx, Option.map_eq_some_iff] at h
          obtain ⟨⟨digits, after⟩, hscan, heq⟩ := h
          obtain ⟨rfl, rfl⟩ := Prod.mk.inj heq
          have hmore := someDigits?_append more hscan hrest
          rw [List.cons_append] at hmore
          rw [List.cons_append, List.cons_append, scanPower?_unsigned hc hx, hmore]
          rfl
    · rw [scanPower?_other hc] at h
      cases h
      exact scanPower?_other hc (cs ++ more)

/-- A number without its sign. -/
def scanMagnitude? (cs : List Char) : Option (List Char × List Char) := do
  let (whole, cs) ← scanWhole? cs
  let (point, cs) ← scanPoint? cs
  let (power, cs) ← scanPower? cs
  some (whole ++ point ++ power, cs)

theorem scanNumber?_negative (cs : List Char) :
    scanNumber? ('-' :: cs) = (scanMagnitude? cs).map fun x ↦ ('-' :: x.1, x.2) := by
  simp only [scanNumber?, scanMagnitude?, Option.bind_eq_bind, Option.map_bind,
    Function.comp_def, Option.map_some]
  rfl

theorem scanNumber?_unsigned {c : Char} (hc : c ≠ '-') (cs : List Char) :
    scanNumber? (c :: cs) = scanMagnitude? (c :: cs) := by
  simp [scanNumber?, scanMagnitude?, hc]

theorem scanMagnitude?_append (h : scanMagnitude? cs = some (text, rest)) (hrest : rest ≠ []) :
    scanMagnitude? (cs ++ more) = some (text, rest ++ more) := by
  simp only [scanMagnitude?, Option.bind_eq_bind, Option.bind_eq_some_iff] at h
  obtain ⟨⟨whole, afterWhole⟩, hwhole, ⟨point, afterPoint⟩, hpoint, ⟨power, afterPower⟩, hpower,
    h⟩ := h
  obtain ⟨rfl, rfl⟩ := Prod.mk.inj (Option.some.inj h)
  -- every part leaves something, because the last one does
  have hafterPoint : afterPoint ≠ [] := by
    rintro rfl
    exact hrest (List.length_eq_zero_iff.1 (Nat.le_zero.1 (scanPower?_length hpower)))
  have hafterWhole : afterWhole ≠ [] := by
    rintro rfl
    exact hafterPoint (List.length_eq_zero_iff.1 (Nat.le_zero.1 (scanPoint?_length hpoint)))
  simp only [scanMagnitude?, Option.bind_eq_bind, scanWhole?_append more hwhole hafterWhole,
    scanPoint?_append more hpoint hafterPoint, scanPower?_append more hpower hrest,
    Option.bind_some]

theorem scanNumber?_append (h : scanNumber? cs = some (text, rest)) (hrest : rest ≠ []) :
    scanNumber? (cs ++ more) = some (text, rest ++ more) := by
  obtain ⟨c, tail, rfl, -⟩ := head_of_number h
  by_cases hc : c = '-'
  · subst hc
    rw [scanNumber?_negative, Option.map_eq_some_iff] at h
    obtain ⟨⟨magnitude, after⟩, hscan, heq⟩ := h
    obtain ⟨rfl, rfl⟩ := Prod.mk.inj heq
    rw [List.cons_append, scanNumber?_negative, scanMagnitude?_append more hscan hrest]
    rfl
  · rw [scanNumber?_unsigned hc] at h
    have hmore := scanMagnitude?_append more h hrest
    rw [List.cons_append] at hmore ⊢
    rw [scanNumber?_unsigned hc, hmore]

theorem scanLiteral?_append {v : Value} (h : scanLiteral? cs = some (v, rest)) :
    scanLiteral? (cs ++ more) = some (v, rest ++ more) := by
  unfold scanLiteral? at h
  split at h <;> cases h <;> rfl

end Numbers

/-! ### Values -/

theorem upTo_append (cs rest more : List Char) :
    upTo (cs ++ more) (rest ++ more) = upTo cs rest := by
  rw [upTo, upTo, List.length_append, List.length_append, Nat.add_sub_add_right,
    List.take_append_of_le_length (Nat.sub_le _ _)]

/-- The value is not a number, whose end is only seen by what follows it. -/
def Value.EndsItself : Value → Prop
  | .number _ => False
  | _ => True

theorem ScalarText.append {cs rest : List Char} {v : Value} (h : ScalarText cs v rest)
    (hend : v.EndsItself ∨ rest ≠ []) (more : List Char) :
    ScalarText (cs ++ more) v (rest ++ more) := by
  cases h with
  | @string cs rest text inside =>
    have hstring : stringOf (cs ++ more) (rest ++ more) text = stringOf cs rest text := by
      cases text with
      | none => rw [stringOf, stringOf, upTo_append]
      | some text => rfl
    rw [← hstring]
    exact .string (inside.append more)
  | literal word => exact .literal (scanLiteral?_append more word)
  | number digits =>
    have hrest : rest ≠ [] := hend.resolve_left id
    exact .number (scanNumber?_append more digits hrest)

/-- What follows the part cannot become one with it. -/
def Part.EndsItself : Part → Prop
  | .value v => v.EndsItself
  | _ => True

/-- **A text that starts with a value still does so when it goes on.** -/
theorem Derives.append {part : Part} {cs rest : List Char} (h : Derives part cs rest)
    (hend : part.EndsItself ∨ rest ≠ []) (more : List Char) :
    Derives part (cs ++ more) (rest ++ more) := by
  induction h with
  | @scalar cs rest v text =>
    obtain ⟨c, tail, hhead, -⟩ := text.exists_head
    have hmore := text.append hend more
    rw [hhead, List.cons_append, ← skipGap_append_of_eq hhead] at hmore
    exact .scalar hmore
  | emptyArray opening closing =>
    exact .emptyArray (skipGap_append_of_eq opening more) (skipGap_append_of_eq closing more)
  | array opening parts ih =>
    exact .array (skipGap_append_of_eq opening more) (ih (.inl trivial))
  | emptyObject opening closing =>
    exact .emptyObject (skipGap_append_of_eq opening more) (skipGap_append_of_eq closing more)
  | @object cs inner rest entries opening parts ih =>
    have hobject : objectOf (inner ++ more) (rest ++ more) entries =
        objectOf inner rest entries := by
      cases entries with
      | none => rw [objectOf, objectOf, upTo_append]
      | some entries => rfl
    rw [← hobject]
    exact .object (skipGap_append_of_eq opening more) (ih (.inl trivial))
  | lastItem item closing ih =>
    exact .lastItem (ih (.inr (ne_nil_of_skipGap closing))) (skipGap_append_of_eq closing more)
  | moreItems item comma others ihItem ihOthers =>
    exact .moreItems (ihItem (.inr (ne_nil_of_skipGap comma))) (skipGap_append_of_eq comma more)
      (ihOthers (.inl trivial))
  | lastEntry opening name colon value closing ih =>
    exact .lastEntry (skipGap_append_of_eq opening more) (name.append more)
      (skipGap_append_of_eq colon more) (ih (.inr (ne_nil_of_skipGap closing)))
      (skipGap_append_of_eq closing more)
  | moreEntries opening name colon value comma others ihValue ihOthers =>
    exact .moreEntries (skipGap_append_of_eq opening more) (name.append more)
      (skipGap_append_of_eq colon more) (ihValue (.inr (ne_nil_of_skipGap comma)))
      (skipGap_append_of_eq comma more) (ihOthers (.inl trivial))

/-! ### Arrays -/

/-- A gap may stand before any part. -/
theorem Derives.after_gap {part : Part} {cs rest gap : List Char} (h : Derives part cs rest)
    (hgap : skipGap gap = []) : Derives part (gap ++ cs) rest := by
  have hskip (text : List Char) : skipGap (gap ++ text) = skipGap text :=
    skipGap_append_of_gap hgap text
  induction h with
  | scalar text => exact .scalar ((hskip _).symm ▸ text)
  | emptyArray opening closing => exact .emptyArray ((hskip _).trans opening) closing
  | array opening parts => exact .array ((hskip _).trans opening) parts
  | emptyObject opening closing => exact .emptyObject ((hskip _).trans opening) closing
  | object opening parts => exact .object ((hskip _).trans opening) parts
  | lastItem item closing ih => exact .lastItem ih closing
  | moreItems item comma others ih => exact .moreItems ih comma others
  | lastEntry opening name colon value closing =>
    exact .lastEntry ((hskip _).trans opening) name colon value closing
  | moreEntries opening name colon value comma others =>
    exact .moreEntries ((hskip _).trans opening) name colon value comma others

/-- The text is the value, with nothing but gaps around it. -/
def IsText (v : Value) (cs : List Char) : Prop :=
  ∃ rest, Derives (.value v) cs rest ∧ skipGap rest = []

/-- A text that is a value is followed by the next character after its gap. -/
theorem IsText.derives {v : Value} {cs : List Char} (h : IsText v cs) (hend : v.EndsItself)
    {c : Char} (hc : isGap c = false) (more : List Char) :
    ∃ after, Derives (.value v) (cs ++ c :: more) after ∧ skipGap after = c :: more := by
  obtain ⟨rest, hvalue, hgap⟩ := h
  refine ⟨rest ++ c :: more, hvalue.append (.inl hend) _, ?_⟩
  rw [skipGap_append_of_gap hgap, skipGap, List.dropWhile_cons_of_neg (by simp [hc])]

/-- Texts that are values, joined with commas, are the items of an array. -/
theorem derives_joined {texts : List (List Char)} {vs : List Value}
    (h : List.Forall₂ (fun cs v ↦ IsText v cs ∧ v.EndsItself) texts vs) (hne : texts ≠ [])
    (rest : List Char) : Derives (.items vs) ([','].intercalate texts ++ ']' :: rest) rest := by
  induction h with
  | nil => exact absurd rfl hne
  | @cons cs v texts vs hfirst hothers ih =>
    cases hothers with
    | nil =>
      rw [List.intercalate_singleton]
      obtain ⟨after, hvalue, hafter⟩ :=
        hfirst.1.derives hfirst.2 (show isGap ']' = false by decide) rest
      exact .lastItem hvalue hafter
    | @cons cs' v' texts vs hsecond hothers =>
      have hitems := ih (List.cons_ne_nil _ _)
      rw [List.intercalate_cons_cons, List.append_assoc, List.append_assoc, List.singleton_append]
      obtain ⟨after, hvalue, hafter⟩ := hfirst.1.derives hfirst.2
        (show isGap ',' = false by decide) ([','].intercalate (cs' :: texts) ++ ']' :: rest)
      exact .moreItems hvalue hafter hitems

/-- An array with gaps around its brackets. -/
def arrayText (before inside after : List Char) (texts : List (List Char)) : List Char :=
  before ++ '[' :: (inside ++ ([','].intercalate texts ++ ']' :: after))

/-- **Texts that are values make the text of an array.** -/
theorem isText_arrayText {before inside after : List Char} (hbefore : skipGap before = [])
    (hinside : skipGap inside = []) (hafter : skipGap after = []) {texts : List (List Char)}
    {vs : List Value} (h : List.Forall₂ (fun cs v ↦ IsText v cs ∧ v.EndsItself) texts vs) :
    IsText (.array vs) (arrayText before inside after texts) := by
  refine ⟨after, ?_, hafter⟩
  have hopening (more : List Char) : skipGap (before ++ '[' :: more) = '[' :: more :=
    skipGap_append_of_gap hbefore _
  by_cases hne : texts = []
  · subst hne
    cases h
    exact .emptyArray (hopening _) (skipGap_append_of_gap hinside _)
  · exact .array (hopening _) ((derives_joined h hne after).after_gap hinside)

end BarReplay.Json
