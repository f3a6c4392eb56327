import BarReplay.Proofs.Json.Numbers

/-!
# Written values are read back

A value whose numbers are numbers is the value of its own text (`Written.isText`), under any spacing
that is made of gaps, and so under both spacings in use. As a value keeps the texts of its numbers,
the compact and the spread text of a value are two texts of the very same value.

The value is read off its text whatever follows, as long as a value may end there
(`Written.readsBack`). That matters inside brackets only, where the next character is that of the
spacing, a comma or the closing bracket.
-/

namespace BarReplay.Json

/-! ### Strings -/

/-- A character is read off its escape, which is at most six characters long. -/
theorem StringText.escape {cs rest text : List Char} (tail : StringText cs (some text) rest)
    (c : Char) : StringText (escape c ++ cs) (some (c :: text)) rest := by
  unfold Json.escape
  split
  iterate 7 exact .short rfl tail
  next hquote hslash _ _ _ _ _ =>
    split_ifs with hcontrol
    · have hunit : ∀ n : Fin 32,
          unit? '0' '0' (hexDigit (n / 16)) (hexDigit (n % 16)) = some n.val := by decide
      have hlong : longEscape? ('0' :: '0' :: hexDigit (c.toNat / 16) ::
          hexDigit (c.toNat % 16) :: cs) = some (some c, cs) := by
        have hlead : isLead c.toNat = false := by simp [isLead]; omega
        have htrail : isTrail c.toNat = false := by simp [isTrail]; omega
        simp [longEscape?, hunit ⟨c.toNat, hcontrol⟩, hlead, htrail]
      exact .long hlong tail
    · exact .plain (not_or.2 ⟨hcontrol, hslash⟩) hquote tail

/-- A text is read off its escapes. -/
theorem StringText.escapes (text rest : List Char) :
    StringText (text.flatMap Json.escape ++ '"' :: rest) (some text) rest := by
  induction text with
  | nil => exact .close
  | cons c text ih =>
    rw [List.flatMap_cons, List.append_assoc]
    exact ih.escape c

/-! ### Values that can be written -/

/-- Every number of the value is the text of a number, and all its strings are texts. -/
inductive Written : Value → Prop where
  | null : Written .null
  | bool (b : Bool) : Written (.bool b)
  | number {text : List Char} (h : IsNumber text) : Written (.number text)
  | string (text : String) : Written (.string text)
  | array {items : List Value} (h : ∀ v ∈ items, Written v) : Written (.array items)
  | object {entries : List (String × Value)} (h : ∀ e ∈ entries, Written e.2) :
      Written (.object entries)

attribute [simp] Written.null Written.string

@[simp] theorem written_ofFloat (x : Float) : Written (.ofFloat x) := by
  rw [Value.ofFloat]
  split
  next hx => exact .number (isNumber_report hx)
  next => exact .null

@[simp] theorem written_ofOptionalFloat (x : Option Float) : Written (.ofOptionalFloat x) := by
  cases x with
  | none => exact .null
  | some x => exact written_ofFloat x

@[simp] theorem written_ofNat (n : Nat) : Written (.ofNat n) :=
  .number (isNumber_digitsOf n)

theorem Written.array_map {ι : Type} {f : ι → Value} (h : ∀ i, Written (f i)) (is : List ι) :
    Written (.array (is.map f)) := by
  refine .array fun v hv ↦ ?_
  obtain ⟨i, -, rfl⟩ := List.mem_map.1 hv
  exact h i

@[simp] theorem written_object_nil : Written (.object []) :=
  .object nofun

@[simp] theorem written_object_cons {key : String} {v : Value} {entries : List (String × Value)} :
    Written (.object ((key, v) :: entries)) ↔ Written v ∧ Written (.object entries) := by
  constructor
  · rintro ⟨⟩
    next h => exact ⟨h _ List.mem_cons_self, .object fun e he ↦ h e (List.mem_cons_of_mem _ he)⟩
  · rintro ⟨hv, ⟨⟩⟩
    next h => exact .object (List.forall_mem_cons.2 ⟨hv, h⟩)

/-- There is nothing but gaps between the parts. -/
structure Spacing.IsGap (s : Spacing) : Prop where
  line : ∀ depth, skipGap (s.line depth) = []
  gap : skipGap s.gap = []

theorem Spacing.isGap_compact : Spacing.compact.IsGap :=
  ⟨fun _ ↦ rfl, rfl⟩

theorem Spacing.isGap_spread : Spacing.spread.IsGap := by
  refine ⟨fun depth ↦ ?_, rfl⟩
  rw [skipGap, List.dropWhile_eq_nil_iff]
  intro c hc
  rcases List.mem_cons.1 hc with rfl | hc
  · rfl
  · rw [List.eq_of_mem_replicate hc]
    rfl

/-! ### Parts between brackets -/

theorem Value.itemChars_eq_map (s : Spacing) (depth : Nat) (items : List Value) :
    Value.itemChars s depth items = items.map (Value.chars s depth) := by
  induction items with
  | nil => rfl
  | cons v items ih => rw [Value.itemChars, ih, List.map_cons]

/-- The text of an entry of an object. -/
def entryText (s : Spacing) (depth : Nat) (e : String × Value) : List Char :=
  quoted e.1 ++ ':' :: s.gap ++ e.2.chars s depth

theorem Value.entryChars_eq_map (s : Spacing) (depth : Nat) (entries : List (String × Value)) :
    Value.entryChars s depth entries = entries.map (entryText s depth) := by
  induction entries with
  | nil => rfl
  | cons e entries ih => rw [Value.entryChars, ih, List.map_cons, entryText]

section Brackets

variable {ι : Type} {gap close : List Char} {right : Char}

/-- A value may end before a gap and a comma or a closing bracket. -/
theorem ends_gap_append (hclose : skipGap close = [])
    (hright : isGap right = true ∨ right = ',' ∨ right = ']' ∨ right = '\x7d') (rest : List Char) :
    Ends (close ++ right :: rest) := by
  cases close with
  | nil => exact ends_cons hright rest
  | cons c close =>
    have hc : isGap c = true := List.dropWhile_eq_nil_iff.1 hclose c List.mem_cons_self
    exact ends_cons (.inl hc) _

/-- Parts with commas between them, up to the closing bracket: they are a list of parts if a single
one is, and if one more may stand before a comma and others. The induction is the same for the items
of an array and for the entries of an object. -/
theorem joined_parts {Good : ι → Prop} (Parts : List ι → List Char → List Char → Prop)
    {text : ι → List Char}
    (last : ∀ i after rest, Good i → Ends after → skipGap after = right :: rest →
      Parts [i] (text i ++ after) rest)
    (more : ∀ i others after behind rest, Good i → Ends after → skipGap after = ',' :: behind →
      Parts others behind rest → Parts (i :: others) (text i ++ after) rest)
    (afterGap : ∀ parts cs rest, Parts parts cs rest → Parts parts (gap ++ cs) rest)
    (hclose : skipGap close = []) (hright : right = ']' ∨ right = '\x7d') {i : ι}
    {others : List ι} (hgood : ∀ j ∈ i :: others, Good j) (rest : List Char) :
    Parts (i :: others)
      (text i ++ ((others.flatMap fun j ↦ ',' :: gap ++ text j) ++ (close ++ right :: rest)))
      rest := by
  induction others generalizing i with
  | nil =>
    have hends : Ends (close ++ right :: rest) :=
      ends_gap_append hclose (.inr (.inr hright)) rest
    rw [List.flatMap_nil, List.nil_append]
    refine last i _ rest (hgood i List.mem_cons_self) hends ?_
    rw [skipGap_append_of_gap hclose]
    rcases hright with rfl | rfl <;> rfl
  | cons j others ih =>
    have htail := afterGap _ _ _ (ih fun k hk ↦ hgood k (List.mem_cons_of_mem i hk))
    rw [List.flatMap_cons, List.append_assoc, List.append_assoc, List.cons_append]
    exact more i (j :: others) _ _ rest (hgood i List.mem_cons_self)
      (ends_cons (.inr (.inl rfl)) _) rfl htail

/-- The text between brackets, with what follows it. -/
theorem bracketed_append (s : Spacing) (depth : Nat) (left right : Char) (text : ι → List Char)
    (i : ι) (others : List ι) (rest : List Char) :
    bracketed s depth left right ((i :: others).map text) ++ rest =
      left :: (s.line (depth + 1) ++ (text i ++
        ((others.flatMap fun j ↦ ',' :: s.line (depth + 1) ++ text j) ++
          (s.line depth ++ right :: rest)))) := by
  simp [bracketed, List.flatMap_map]

end Brackets

/-! ### Values -/

/-- The value is read off its text wherever a value may end. -/
def ReadsBack (s : Spacing) (depth : Nat) (v : Value) : Prop :=
  ∀ rest, Ends rest → Derives (.value v) (v.chars s depth ++ rest) rest

theorem readsBack_number {text : List Char} (h : IsNumber text) (s : Spacing) (depth : Nat) :
    ReadsBack s depth (.number text) := by
  intro rest hrest
  have hscan := h rest hrest
  obtain ⟨c, tail, hcons, hc⟩ := head_of_number hscan
  have hgap : skipGap (text ++ rest) = text ++ rest := by
    rw [hcons]
    refine List.dropWhile_cons_of_neg ?_
    rcases hc with rfl | hdigit
    · decide
    · intro hgap
      exact absurd hdigit (by simp [Ends.head_ne (ends_cons (.inl hgap) tail)])
  exact .scalar (hgap.symm ▸ .number hscan)

theorem readsBack_string (text : String) (s : Spacing) (depth : Nat) :
    ReadsBack s depth (.string text) := by
  intro rest _
  have hinside := StringText.escapes text.toList rest
  have hscalar := ScalarText.string hinside
  rw [stringOf, String.ofList_toList] at hscalar
  refine .scalar ?_
  rw [Value.chars, quoted, List.append_assoc]
  exact hscalar

/-- Items that are read back make an array that is. -/
theorem readsBack_array {s : Spacing} (hs : s.IsGap) {depth : Nat} {items : List Value}
    (h : ∀ v ∈ items, ReadsBack s (depth + 1) v) : ReadsBack s depth (.array items) := by
  intro rest _
  cases items with
  | nil => exact .emptyArray rfl rfl
  | cons v items =>
    rw [Value.chars, Value.itemChars_eq_map, bracketed_append]
    refine .array rfl (Derives.after_gap ?_ (hs.line _))
    exact joined_parts (fun vs ↦ Derives (.items vs))
      (fun v after rest hv hends hclose ↦ .lastItem (hv after hends) hclose)
      (fun v vs after behind rest hv hends hcomma hvs ↦ .moreItems (hv after hends) hcomma hvs)
      (fun vs cs rest hvs ↦ hvs.after_gap (hs.line _)) (hs.line depth) (.inl rfl) h rest

/-- An entry with a value that is read back, in front of what follows it. -/
theorem entry_parts {s : Spacing} (hs : s.IsGap) {depth : Nat} {e : String × Value}
    (he : ReadsBack s depth e.2) {after : List Char} (hends : Ends after) :
    ∃ text afterKey afterColon, skipGap (entryText s depth e ++ after) = '"' :: text ∧
      StringText text (some e.1.toList) afterKey ∧ skipGap afterKey = ':' :: afterColon ∧
      Derives (.value e.2) afterColon after := by
  refine ⟨_, _, _, ?_, .escapes e.1.toList (':' :: (s.gap ++ (e.2.chars s depth ++ after))), rfl,
    (he after hends).after_gap hs.gap⟩
  simp [entryText, quoted, skipGap, isGap]

/-- Entries that are read back make an object that is. -/
theorem readsBack_object {s : Spacing} (hs : s.IsGap) {depth : Nat}
    {entries : List (String × Value)} (h : ∀ e ∈ entries, ReadsBack s (depth + 1) e.2) :
    ReadsBack s depth (.object entries) := by
  intro rest _
  cases entries with
  | nil => exact .emptyObject rfl rfl
  | cons e entries =>
    rw [Value.chars, Value.entryChars_eq_map, bracketed_append]
    suffices hentries : Derives (.entries (some (e :: entries))) _ rest from
      .object rfl (hentries.after_gap (hs.line _))
    have hentry (e : String × Value) (es : Option (List (String × Value))) :
        consEntry (some e.1.toList) e.2 es = es.map (e :: ·) := by
      cases es <;> simp [consEntry]
    refine joined_parts (fun es ↦ Derives (.entries (some es))) ?_ ?_
      (fun es cs rest hes ↦ hes.after_gap (hs.line _)) (hs.line depth) (.inr rfl) h rest
    · intro e after rest he hends hclose
      obtain ⟨text, afterKey, afterColon, hopening, hname, hcolon, hvalue⟩ :=
        entry_parts hs he hends
      have hlast := Derives.lastEntry hopening hname hcolon hvalue hclose
      rwa [hentry] at hlast
    · intro e es after behind rest he hends hcomma hes
      obtain ⟨text, afterKey, afterColon, hopening, hname, hcolon, hvalue⟩ :=
        entry_parts hs he hends
      have hmore := Derives.moreEntries hopening hname hcolon hvalue hcomma hes
      rwa [hentry] at hmore

/-- **A value is read off its own text,** whatever follows the text, as long as a value may end
there. -/
theorem Written.readsBack {v : Value} (h : Written v) {s : Spacing} (hs : s.IsGap) (depth : Nat) :
    ReadsBack s depth v := by
  induction h generalizing depth with
  | null => exact fun rest _ ↦ .scalar (.literal rfl)
  | bool b => cases b <;> exact fun rest _ ↦ .scalar (.literal rfl)
  | number h => exact readsBack_number h s depth
  | string text => exact readsBack_string text s depth
  | array h ih => exact readsBack_array hs fun v hv ↦ ih v hv (depth + 1)
  | object h ih => exact readsBack_object hs fun e he ↦ ih e he (depth + 1)

/-- A value is the value of its own text. -/
theorem Written.isText {v : Value} (h : Written v) {s : Spacing} (hs : s.IsGap) :
    IsText v (v.chars s 0) := by
  have hderives := h.readsBack hs 0 [] ends_nil
  rw [List.append_nil] at hderives
  exact ⟨[], hderives, rfl⟩

/-- **The compact and the spread text of a value are texts of that value.** -/
theorem Written.isText_both {v : Value} (h : Written v) :
    IsText v v.compact.toList ∧ IsText v v.spread.toList := by
  rw [Value.compact, Value.spread, String.toList_ofList, String.toList_ofList]
  exact ⟨h.isText Spacing.isGap_compact, h.isText Spacing.isGap_spread⟩

end BarReplay.Json
