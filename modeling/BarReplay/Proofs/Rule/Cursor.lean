import BarReplay.Proofs.Rule.Operands
import BarReplay.Proofs.Rule.Reader
import BarReplay.Rule.Cursor

/-!
# Reading by position is reading

The machine that reads a rule by moving a byte position along its text does what the reader does
with the rests of the text (`Expr.parseByPosition_eq`): it comes to an end on every text within a
depth that is linear in the length of the text, never cuts a text within a character or behind its
end, takes the same texts for the same rules, and refuses the others for the same fault at the same
place.

The position of the machine always stands for a rest of the text, and every step of the machine is
compared with a step of the reader in front of that rest (`Moves`, `Follows`). The machine skips
blanks more often than the reader, so the two agree on rests up to blanks at the head.
-/

namespace BarReplay

namespace Text

/-! ### Cuts -/

/-- A text is cut at a position exactly if some part of it takes that many bytes. -/
theorem fromByte?_append (done rest : List Char) :
    fromByte? (done ++ rest) (byteLength done) = some rest := by
  induction done with
  | nil => cases rest <;> rfl
  | cons c done ih =>
    have hsize : c.utf8Size + byteLength done = (c.utf8Size + byteLength done - 1) + 1 := by
      have := c.utf8Size_pos
      omega
    rw [List.cons_append, byteLength_cons, hsize, fromByte?, ← hsize,
      if_pos (Nat.le_add_right _ _), Nat.add_sub_cancel_left, ih]

theorem upToByte?_append (done rest : List Char) :
    upToByte? (done ++ rest) (byteLength done) = some done := by
  induction done with
  | nil => cases rest <;> rfl
  | cons c done ih =>
    have hsize : c.utf8Size + byteLength done = (c.utf8Size + byteLength done - 1) + 1 := by
      have := c.utf8Size_pos
      omega
    rw [List.cons_append, byteLength_cons, hsize, upToByte?, ← hsize,
      if_pos (Nat.le_add_right _ _), Nat.add_sub_cancel_left, ih]
    rfl

/-- What is cut off is what takes the bytes. -/
theorem exists_append_of_upToByte? {cs head : List Char} {n : Nat}
    (h : upToByte? cs n = some head) : ∃ rest, cs = head ++ rest ∧ byteLength head = n := by
  fun_induction upToByte? cs n generalizing head with
  | case1 cs =>
    cases h
    exact ⟨cs, rfl, rfl⟩
  | case2 => cases h
  | case3 c cs n hle ih =>
    obtain ⟨head', hhead, rfl⟩ := Option.map_eq_some_iff.1 h
    obtain ⟨rest, rfl, hlength⟩ := ih hhead
    refine ⟨rest, rfl, ?_⟩
    rw [byteLength_cons]
    omega
  | case4 => cases h

/-- The position of a rest, and the part of the text before it. -/
theorem fromByte?_positionOf {text cs : List Char} (h : cs <:+ text) :
    fromByte? text (positionOf text cs) = some cs := by
  obtain ⟨done, rfl⟩ := h
  rw [positionOf_append, fromByte?_append]

theorem positionOf_of_append {text taken rest : List Char} (h : taken ++ rest <:+ text) :
    positionOf text rest = positionOf text (taken ++ rest) + byteLength taken := by
  obtain ⟨done, rfl⟩ := h
  rw [positionOf_append, ← List.append_assoc, positionOf_append, byteLength_append]

/-- Characters of ASCII take one byte each. -/
theorem byteLength_of_ascii {cs : List Char} (h : ∀ c ∈ cs, c.toNat < 0x80) :
    byteLength cs = cs.length := by
  induction cs with
  | nil => rfl
  | cons c cs ih =>
    have hsize : c.utf8Size = 1 := by
      have hc : c.toNat < 0x80 := h c List.mem_cons_self
      rw [Char.utf8Size_eq_one_iff, UInt32.le_iff_toNat_le]
      exact Nat.le_of_lt_succ hc
    rw [byteLength_cons, hsize, ih fun d hd ↦ h d (List.mem_cons_of_mem c hd), List.length_cons,
      Nat.add_comm]

end Text

namespace Cursor

open Text (positionOf)

variable {β γ : Type} {text : List Char} {depth : Nat}

/-! ### Moves -/

/-- In front of one rest of the text the machine has a result and goes in front of another. -/
structure Moves (text : List Char) (x : Cursor β) (cs : List Char) (b : β) (rest : List Char) :
    Prop where
  suffix : rest <:+ text
  eq : x (positionOf text cs) = some (.ok (b, positionOf text rest))

/-- In front of a rest of the text the machine does what the reader does with the rest: it has the
same result and goes in front of the same rest, up to blanks, or it refuses the text for the same
fault and at the same place. -/
def Follows (text : List Char) (x : Cursor β) (cs : List Char) :
    Except Stop (β × List Char) → Prop
  | .ok (b, rest) => ∃ rest', Text.skipBlank rest' = Text.skipBlank rest ∧ Moves text x cs b rest'
  | .error stop => x (positionOf text cs) =
      some (.error (.refused ⟨stop.fault, positionOf text stop.rest⟩))

section Steps

variable {x : Cursor β} {f : β → Cursor γ} {cs rest : List Char} {b : β}

theorem Moves.bind_eq (h : Moves text x cs b rest) :
    (x >>= f) (positionOf text cs) = f b (positionOf text rest) := by
  show (x (positionOf text cs) >>= fun a ↦ f a.1 a.2 : ExceptT Halt Option (γ × Nat)) = _
  rw [h.eq]
  rfl

theorem Moves.bind {c : γ} {rest' : List Char} (h : Moves text x cs b rest)
    (hf : Moves text (f b) rest c rest') : Moves text (x >>= f) cs c rest' :=
  ⟨hf.suffix, h.bind_eq.trans hf.eq⟩

/-- A move before the reader starts. -/
theorem Moves.bind_follows {y : Except Stop (γ × List Char)} (h : Moves text x cs b rest)
    (hf : Follows text (f b) rest y) : Follows text (x >>= f) cs y := by
  rcases y with stop | ⟨c, rest'⟩
  · exact h.bind_eq.trans hf
  · obtain ⟨rest'', hskip, hmoves⟩ := hf
    exact ⟨rest'', hskip, h.bind hmoves⟩

theorem Moves.follows (h : Moves text x cs b rest) : Follows text x cs (.ok (b, rest)) :=
  ⟨rest, rfl, h⟩

theorem moves_pure (h : cs <:+ text) : Moves text (pure b) cs b cs :=
  ⟨h, rfl⟩

theorem follows_pure (h : cs <:+ text) (hskip : Text.skipBlank cs = Text.skipBlank rest) :
    Follows text (pure b) cs (.ok (b, rest)) :=
  ⟨cs, hskip, moves_pure h⟩

/-- Two parts of a reading in a row do what two parts of the reader do in a row. -/
theorem Follows.bind {y : Except Stop (β × List Char)}
    {g : β × List Char → Except Stop (γ × List Char)} (h : Follows text x cs y)
    (hf : ∀ b rest rest', y = .ok (b, rest) → rest' <:+ text →
      Text.skipBlank rest' = Text.skipBlank rest → Follows text (f b) rest' (g (b, rest))) :
    Follows text (x >>= f) cs (y >>= g) := by
  rcases y with stop | ⟨b, rest⟩
  · show (x (positionOf text cs) >>= fun a ↦ f a.1 a.2 : ExceptT Halt Option (γ × Nat)) = _
    rw [show x (positionOf text cs) = _ from h]
    rfl
  · obtain ⟨rest', hskip, hmoves⟩ := h
    exact hmoves.bind_follows (hf b rest rest' rfl hmoves.suffix hskip)

theorem Follows.map {y : Except Stop (β × List Char)} {k : β → γ} (h : Follows text x cs y) :
    Follows text (do pure (k (← x))) cs (y.map fun taken ↦ (k taken.1, taken.2)) := by
  have hbind := h.bind (f := fun b ↦ pure (k b)) (g := fun taken ↦ .ok (k taken.1, taken.2))
    fun b rest rest' _ hsuffix hskip ↦ follows_pure hsuffix hskip
  rcases y with stop | ⟨b, rest⟩ <;> exact hbind

/-- Refusing the text at a rest of it. -/
theorem follows_refuse (fault : ParseFault) (rest : List Char) :
    Follows text (refuse fault (positionOf text rest) : Cursor β) cs (.error ⟨fault, rest⟩) :=
  rfl

end Steps

/-! ### Looking and moving -/

section Looking

variable {c : Char} {cs : List Char}

theorem skipBlank_suffix (cs : List Char) : Text.skipBlank cs <:+ cs :=
  List.dropWhile_suffix _

theorem moves_get (h : cs <:+ text) : Moves text get cs (positionOf text cs) cs :=
  ⟨h, rfl⟩

theorem moves_remaining (h : cs <:+ text) : Moves text (remaining text) cs cs cs := by
  refine (moves_get h).bind ⟨h, ?_⟩
  rw [Text.fromByte?_positionOf h]
  rfl

theorem moves_peek (h : cs <:+ text) : Moves text (peek text) cs cs.head? cs :=
  (moves_remaining h).bind (moves_pure h)

theorem moves_found (h : cs <:+ text) : Moves text (found text) cs (Rule.glimpse cs) cs :=
  (moves_remaining h).bind (moves_pure h)

/-- Moves past a part of the text by the number of its bytes. -/
theorem moves_skip (taken rest : List Char) (h : taken ++ rest <:+ text) :
    Moves text (skip (Text.byteLength taken)) (taken ++ rest) () rest where
  suffix := (List.suffix_append taken rest).trans h
  eq := by
    rw [Text.positionOf_of_append h]
    rfl

theorem moves_advance (h : c :: cs <:+ text) : Moves text (advance text) (c :: cs) () cs :=
  (moves_peek h).bind (moves_skip [c] cs h)

theorem moves_pass (kind : Char → Bool) (h : cs <:+ text) :
    Moves text (pass text kind) cs ()
      (match cs with
      | c :: rest => if kind c then rest else cs
      | [] => []) := by
  refine (moves_peek h).bind ?_
  rcases cs with - | ⟨c, rest⟩
  · exact moves_pure h
  · show Moves text (if kind c then advance text else pure ()) (c :: rest) ()
      (if kind c then rest else c :: rest)
    split_ifs
    · exact moves_advance h
    · exact moves_pure h

theorem moves_skipBlanks (h : cs <:+ text) (hdepth : cs.length < depth) :
    Moves text (skipBlanks text depth) cs () (Text.skipBlank cs) := by
  induction cs generalizing depth with
  | nil =>
    rcases depth with - | depth
    · cases hdepth
    · exact (moves_peek h).bind (moves_pure h)
  | cons c rest ih =>
    rcases depth with - | depth
    · cases hdepth
    rw [skipBlanks]
    refine (moves_peek h).bind ?_
    show Moves text (if Text.isBlank c then do advance text; skipBlanks text depth else pure ())
      (c :: rest) () (List.dropWhile _ (c :: rest))
    rw [List.dropWhile_cons]
    split_ifs
    · have hrest := ih ((List.suffix_cons c rest).trans h) (Nat.lt_of_succ_lt_succ hdepth)
      exact (moves_advance h).bind hrest
    · exact moves_pure h

end Looking

/-! ### Keywords -/

section Keywords

variable {word cs : List Char} (hword : Rule.IsSmall word)

include hword

/-- A text that spells the keyword, in either letter case, takes as many bytes as the keyword. -/
theorem byteLength_of_spelled {head : List Char} (h : Text.asciiLower head = word) :
    Text.byteLength head = Text.byteLength word := by
  have hhead : ∀ c ∈ head, c.toNat < 0x80 := by
    intro c hc
    have hlow : c.toLower ∈ word := h ▸ List.mem_map_of_mem hc
    have halpha : c.isAlpha = true := c.isLower_toLower_eq_isAlpha ▸ hword.isLower hlow
    have hrange := Rule.toNat_of_isAlpha halpha
    omega
  have hletters : ∀ c ∈ word, c.toNat < 0x80 := by
    intro c hc
    have halpha : c.isAlpha = true := by rw [Char.isAlpha, hword.isLower hc, Bool.or_true]
    have hrange := Rule.toNat_of_isAlpha halpha
    omega
  rw [Text.byteLength_of_ascii hhead, Text.byteLength_of_ascii hletters, ← h,
    Text.asciiLower_length]

theorem moves_atKeyword (h : cs <:+ text) : Moves text (atKeyword text word) cs
    (decide (Text.asciiLower (cs.take word.length) = word ∧
      Text.startsWord (cs.drop word.length) = false)) cs := by
  refine (moves_remaining h).bind ?_
  by_cases hspelled : Text.asciiLower (cs.take word.length) = word
  · have hcs : cs.take word.length ++ cs.drop word.length = cs := List.take_append_drop _ _
    have hhead := Text.upToByte?_append (cs.take word.length) (cs.drop word.length)
    have hrest := Text.fromByte?_append (cs.take word.length) (cs.drop word.length)
    rw [byteLength_of_spelled hword hspelled, hcs] at hhead hrest
    simp only [hhead, hrest, hspelled, if_true, true_and, ← Bool.not_eq_true, Bool.decide_eq_true,
      decide_not]
    exact moves_pure h
  · -- a head of as many bytes that spells the word is what as many characters of the text are
    have hother : ∀ head, Text.upToByte? cs (Text.byteLength word) = some head →
        Text.asciiLower head ≠ word := by
      rintro head hhead rfl
      obtain ⟨rest, rfl, -⟩ := Text.exists_append_of_upToByte? hhead
      rw [Text.asciiLower_length, List.take_left'] at hspelled
      · exact hspelled rfl
      · rfl
    simp only [hspelled, false_and, decide_false]
    split
    · exact moves_pure h
    next head hhead =>
      rw [if_neg (hother head hhead)]
      exact moves_pure h

variable (hdepth : text.length < depth)

include hdepth

/-- The machine looks for a keyword as the reader does. It skips blanks even where there is none. -/
theorem moves_keyword (h : cs <:+ text) :
    match Rule.keyword? word cs with
    | some rest => Moves text (keyword text depth word) cs true rest
    | none => Moves text (keyword text depth word) cs false (Text.skipBlank cs) := by
  have hsuffix : Text.skipBlank cs <:+ text := (skipBlank_suffix cs).trans h
  have hblanks := moves_skipBlanks h (h.length_le.trans_lt hdepth)
  rw [Rule.keyword?]
  generalize Text.skipBlank cs = ds at hsuffix hblanks ⊢
  by_cases hkey : Text.asciiLower (ds.take word.length) = word ∧
      Text.startsWord (ds.drop word.length) = false
  · rw [if_pos hkey]
    have hfound := moves_atKeyword hword hsuffix
    rw [decide_eq_true hkey] at hfound
    have htaken : ds.take word.length ++ ds.drop word.length <:+ text := by
      rwa [List.take_append_drop]
    have hskip := moves_skip _ _ htaken
    rw [List.take_append_drop, byteLength_of_spelled hword hkey.1] at hskip
    exact hblanks.bind (hfound.bind (hskip.bind (moves_pure hskip.suffix)))
  · rw [if_neg hkey]
    have hfound := moves_atKeyword hword hsuffix
    rw [decide_eq_false hkey] at hfound
    exact hblanks.bind (hfound.bind (moves_pure hsuffix))

theorem moves_keyword_some {ds rest : List Char} (h : ds <:+ text)
    (hskip : Text.skipBlank ds = Text.skipBlank cs) (hkey : Rule.keyword? word cs = some rest) :
    Moves text (keyword text depth word) ds true rest := by
  have hmoves := moves_keyword hword hdepth h
  have hsame : Rule.keyword? word ds = some rest := by rwa [Rule.keyword?, hskip]
  rwa [hsame] at hmoves

theorem moves_keyword_none {ds : List Char} (h : ds <:+ text)
    (hskip : Text.skipBlank ds = Text.skipBlank cs) (hkey : Rule.keyword? word cs = none) :
    Moves text (keyword text depth word) ds false (Text.skipBlank ds) := by
  have hmoves := moves_keyword hword hdepth h
  have hsame : Rule.keyword? word ds = none := by rwa [Rule.keyword?, hskip]
  rwa [hsame] at hmoves

end Keywords

/-! ### Numbers -/

section Numbers

variable {cs : List Char}

/-- After a point, the machine counts digits. -/
theorem moves_digits_pointed (count : Nat) (h : cs <:+ text) (hdepth : cs.length < depth) :
    Moves text (digits text depth true count) cs (count + (cs.takeWhile Char.isDigit).length)
      (cs.dropWhile Char.isDigit) := by
  induction cs generalizing count depth with
  | nil =>
    rcases depth with - | depth
    · cases hdepth
    · exact (moves_peek h).bind (moves_pure h)
  | cons c rest ih =>
    rcases depth with - | depth
    · cases hdepth
    have hrest : rest <:+ text := (List.suffix_cons c rest).trans h
    rw [digits]
    refine (moves_peek h).bind ?_
    by_cases hdigit : c.isDigit = true
    · have hcount : count + ((c :: rest).takeWhile Char.isDigit).length =
          count + 1 + (rest.takeWhile Char.isDigit).length := by
        rw [List.takeWhile_cons_of_pos hdigit, List.length_cons]
        omega
      rw [hcount, List.dropWhile_cons_of_pos hdigit]
      simp only [List.head?_cons, hdigit, if_true]
      exact (moves_advance h).bind (ih (count + 1) hrest (Nat.lt_of_succ_lt_succ hdepth))
    · rw [List.takeWhile_cons_of_neg hdigit, List.dropWhile_cons_of_neg hdigit]
      simp only [List.head?_cons, hdigit, Bool.not_true, Bool.and_false, Bool.false_eq_true,
        if_false]
      exact moves_pure h

/-- The machine goes over the digits and the point of a numeral and counts the digits. -/
theorem moves_digits (count : Nat) (h : cs <:+ text) (hdepth : cs.length < depth) :
    Moves text (digits text depth false count) cs
      (count + (Decimal.scanDigits cs).1.length +
        (Decimal.scanFraction (Decimal.scanDigits cs).2).1.length)
      (Decimal.scanFraction (Decimal.scanDigits cs).2).2 := by
  induction cs generalizing count depth with
  | nil =>
    rcases depth with - | depth
    · cases hdepth
    · exact (moves_peek h).bind (moves_pure h)
  | cons c rest ih =>
    rcases depth with - | depth
    · cases hdepth
    have hrest : rest <:+ text := (List.suffix_cons c rest).trans h
    have hdepth' : rest.length < depth := Nat.lt_of_succ_lt_succ hdepth
    rw [digits]
    refine (moves_peek h).bind ?_
    by_cases hdigit : c.isDigit = true
    · have hmore := ih (count + 1) hrest hdepth'
      simp only [Decimal.scanDigits, List.takeWhile_cons_of_pos hdigit,
        List.dropWhile_cons_of_pos hdigit, List.length_cons] at hmore ⊢
      have hcount : count + ((rest.takeWhile Char.isDigit).length + 1) =
          count + 1 + (rest.takeWhile Char.isDigit).length := by omega
      rw [hcount]
      simp only [List.head?_cons, hdigit, if_true]
      exact (moves_advance h).bind hmore
    · simp only [Decimal.scanDigits, List.takeWhile_cons_of_neg hdigit,
        List.dropWhile_cons_of_neg hdigit, List.length_nil, List.head?_cons, hdigit,
        Bool.not_false, Bool.and_true, Bool.false_eq_true, if_false]
      by_cases hpoint : c = '.'
      · subst hpoint
        exact (moves_advance h).bind (moves_digits_pointed count hrest hdepth')
      · have hfraction : Decimal.scanFraction (c :: rest) = ([], c :: rest) := by
          simp [Decimal.scanFraction, hpoint]
        simp only [hfraction, beq_iff_eq, hpoint, if_false]
        exact moves_pure h

/-- The text after a sign, or the text if there is none. -/
def afterSign : List Char → List Char
  | c :: rest => if c == '-' || c == '+' then rest else c :: rest
  | [] => []

/-- What follows the exponent at the head of a text, or the text if there is none. -/
def afterExponent : List Char → List Char
  | c :: rest =>
    if c == 'e' || c == 'E' then ((Decimal.scanExponent? rest).map Prod.snd).getD (c :: rest)
    else c :: rest
  | [] => []

/-- An exponent is a sign or none and at least one digit, and leaves what follows its digits. -/
theorem scanExponent?_rest (cs : List Char) : (Decimal.scanExponent? cs).map Prod.snd =
    if (afterSign cs).takeWhile Char.isDigit = [] then none
    else some ((afterSign cs).dropWhile Char.isDigit) := by
  unfold Decimal.scanExponent?
  split
  next negative ds hsign =>
    have hds : afterSign cs = ds := by
      split at hsign
      · cases hsign
        rfl
      · cases hsign
        rfl
      next hminus hplus =>
        cases hsign
        rcases cs with - | ⟨c, rest⟩
        · rfl
        · have hne : c ≠ '-' ∧ c ≠ '+' :=
            ⟨fun h ↦ hminus rest (h ▸ rfl), fun h ↦ hplus rest (h ▸ rfl)⟩
          simp [afterSign, hne]
    rw [hds, Decimal.scanDigits]
    rcases ds.takeWhile Char.isDigit with - | ⟨d, more⟩ <;> rfl

theorem moves_exponentDigits {mark : List Char} (hmark : mark <:+ text) (h : cs <:+ text) :
    Moves text (exponentDigits text (positionOf text mark)) cs ()
      (((Decimal.scanExponent? cs).map Prod.snd).getD mark) := by
  have hsign : Moves text (pass text fun c ↦ c == '-' || c == '+') cs () (afterSign cs) := by
    have hpass := moves_pass (fun c ↦ c == '-' || c == '+') h
    rcases cs with - | ⟨c, rest⟩ <;> exact hpass
  refine hsign.bind ((moves_remaining hsign.suffix).bind ?_)
  have hsuffix := hsign.suffix
  rw [scanExponent?_rest]
  generalize afterSign cs = ds at hsuffix ⊢
  by_cases hempty : ds.takeWhile Char.isDigit = []
  · simp only [hempty, List.length_nil, if_true]
    exact ⟨hmark, rfl⟩
  · have hlength : (ds.takeWhile Char.isDigit).length ≠ 0 := by simpa using hempty
    simp only [hempty, hlength, if_false, Option.getD_some]
    have hascii : Text.byteLength (ds.takeWhile Char.isDigit) =
        (ds.takeWhile Char.isDigit).length := by
      refine Text.byteLength_of_ascii fun c hc ↦ ?_
      have hrange := Char.isDigit_iff_toNat.1 (List.mem_takeWhile_imp hc)
      exact hrange.2.trans_lt (by decide)
    have htaken : ds.takeWhile Char.isDigit ++ ds.dropWhile Char.isDigit <:+ text := by
      rwa [List.takeWhile_append_dropWhile]
    have hskip := moves_skip _ _ htaken
    rwa [List.takeWhile_append_dropWhile, hascii] at hskip

theorem moves_exponent (h : cs <:+ text) :
    Moves text (exponent text) cs () (afterExponent cs) := by
  refine (moves_peek h).bind ?_
  rcases cs with - | ⟨c, rest⟩
  · exact moves_pure h
  · show Moves text (if c == 'e' || c == 'E' then _ else _) (c :: rest) ()
      (if c == 'e' || c == 'E' then _ else _)
    split_ifs
    · exact (moves_get h).bind ((moves_advance h).bind
        (moves_exponentDigits h ((List.suffix_cons c rest).trans h)))
    · exact moves_pure h

/-- What a numeral leaves is what its exponent leaves, and there is no numeral only if there are no
digits. -/
theorem scan?_rest (cs : List Char) : (Decimal.Numeral.scan? cs).map Prod.snd =
    if (Decimal.scanDigits cs).1.length +
        (Decimal.scanFraction (Decimal.scanDigits cs).2).1.length = 0 then none
    else some (afterExponent (Decimal.scanFraction (Decimal.scanDigits cs).2).2) := by
  rw [Decimal.Numeral.scan?]
  rcases Decimal.scanDigits cs with ⟨whole, afterWhole⟩
  dsimp only
  rcases Decimal.scanFraction afterWhole with ⟨fraction, afterFraction⟩
  dsimp only
  have hempty : (whole.isEmpty && fraction.isEmpty) = true ↔
      whole.length + fraction.length = 0 := by
    rw [Bool.and_eq_true, List.isEmpty_iff, List.isEmpty_iff, Nat.add_eq_zero_iff,
      List.length_eq_zero_iff, List.length_eq_zero_iff]
  simp only [hempty]
  split_ifs with hnone
  · rfl
  · rcases afterFraction with - | ⟨c, rest⟩
    · rfl
    · dsimp only [afterExponent]
      split_ifs
      · rcases Decimal.scanExponent? rest with - | ⟨n, after⟩ <;> rfl
      · rfl

/-- What the reader takes for a number is read as that number. -/
theorem readFloat?_of_scan? {rest : List Char} {n : Decimal.Numeral}
    (h : Decimal.Numeral.scan? (Rule.minus cs).2 = some (n, rest)) : ∃ taken, cs = taken ++ rest ∧
      Decimal.readFloat? taken = some (if (Rule.minus cs).1 then -n.toFloat else n.toFloat) := by
  obtain ⟨chars, hchars, hnumeral⟩ := Decimal.Numeral.scan?_sound h
  have hread := Decimal.readUnsigned?_eq hnumeral
  unfold Rule.minus at hchars ⊢
  split at hchars
  next cs =>
    refine ⟨'-' :: chars, congrArg ('-' :: ·) hchars, ?_⟩
    show (Decimal.readUnsigned? chars).map (- ·) = _
    rw [hread]
    rfl
  next =>
    refine ⟨chars, hchars, ?_⟩
    obtain ⟨c, more, rfl, hc⟩ := hnumeral.starts
    have hsign : c ≠ '-' ∧ c ≠ '+' := by
      constructor <;> rintro rfl <;> exact absurd hc (by decide)
    simp [Decimal.readFloat?, hsign, hread]

theorem moves_between {taken rest : List Char} (h : taken ++ rest <:+ text) :
    Moves text (between text (positionOf text (taken ++ rest)) (positionOf text rest)) rest taken
      rest where
  suffix := (List.suffix_append taken rest).trans h
  eq := by
    rw [between, Text.fromByte?_positionOf h, Text.positionOf_of_append h]
    show (if _ then cut _ _ else _ : Cursor (List Char)) _ = _
    rw [if_pos (Nat.le_add_right _ _), Nat.add_sub_cancel_left, Text.upToByte?_append]
    rfl

theorem moves_minus (h : cs <:+ text) :
    Moves text (pass text (· == '-')) cs () (Rule.minus cs).2 := by
  have hpass := moves_pass (· == '-') h
  unfold Rule.minus
  split
  · exact hpass
  next hother =>
    rcases cs with - | ⟨c, rest⟩
    · exact hpass
    · have hne : ¬ (c == '-') = true := fun hc ↦ hother rest (by rw [beq_iff_eq.1 hc])
      simpa only [if_neg hne] using hpass

/-- The machine reads a number as the reader does. It is in front of the number. -/
theorem follows_number (hdepth : text.length < depth) (h : cs <:+ text) :
    Follows text (number text depth) cs (Rule.bare (Rule.number cs)) := by
  have hminus := moves_minus h
  have hdigits := moves_digits 0 hminus.suffix (hminus.suffix.length_le.trans_lt hdepth)
  have hrest := scan?_rest (Rule.minus cs).2
  rw [Nat.zero_add] at hdigits
  rw [Rule.bare_number]
  refine (moves_get h).bind_follows (hminus.bind_follows (hdigits.bind_follows ?_))
  rcases hscan : Decimal.Numeral.scan? (Rule.minus cs).2 with - | ⟨n, rest⟩
  · rw [hscan] at hrest
    split_ifs at hrest with hcount
    · rw [if_pos hcount]
      exact follows_refuse _ cs
    · cases hrest
  · rw [hscan] at hrest
    split_ifs at hrest with hcount
    · cases hrest
    obtain rfl := Option.some.inj hrest
    obtain ⟨taken, hcs, hread⟩ := readFloat?_of_scan? hscan
    have hexponent := moves_exponent hdigits.suffix
    generalize afterExponent _ = rest at *
    rw [if_neg hcount]
    refine hexponent.bind_follows ((moves_remaining hexponent.suffix).bind_follows
      ((moves_get hexponent.suffix).bind_follows ?_))
    have htake : cs.take (cs.length - rest.length) = taken := by
      rw [hcs, List.length_append, Nat.add_sub_cancel, List.take_left]
    dsimp only
    rw [htake]
    subst hcs
    refine (moves_between h).bind_follows ?_
    by_cases hends : Text.startsWord rest = true
    · rw [if_pos hends, if_pos hends]
      exact follows_refuse _ _
    · rw [if_neg hends, if_neg hends, hread]
      exact (moves_pure hexponent.suffix).follows

end Numbers

/-! ### Comparisons -/

section Comparisons

variable {cs : List Char}

/-- The machine reads the name of a field as the reader does. It is in front of the name. -/
theorem follows_field {c : Char} (hc : Rule.startsField c = true) (h : c :: cs <:+ text) :
    Follows text (field text) (c :: cs) (Rule.bare (Rule.fieldWord c cs)) := by
  have hhead : Text.headWord (c :: cs) = c :: Text.headWord cs :=
    List.takeWhile_cons_of_pos (Rule.isWordChar_of_startsField hc)
  have hafter : Text.afterWord (c :: cs) = Text.afterWord cs :=
    List.dropWhile_cons_of_pos (Rule.isWordChar_of_startsField hc)
  refine (moves_get h).bind_follows ((moves_remaining h).bind_follows ?_)
  rw [Rule.bare_fieldWord, ← hhead, ← hafter]
  generalize c :: cs = ds at h ⊢
  have htaken : Text.headWord ds ++ Text.afterWord ds <:+ text := by
    rwa [Text.headWord_append_afterWord]
  have hskip := moves_skip _ _ htaken
  rw [Text.headWord_append_afterWord] at hskip
  rcases Field.named? (Text.headWord ds) with - | f
  · exact follows_refuse _ ds
  · exact hskip.bind_follows (moves_pure hskip.suffix).follows

theorem follows_noOperand (h : cs <:+ text) :
    Follows text (noOperand text) cs (.error ⟨.missingOperand (Rule.glimpse cs), cs⟩) :=
  (moves_found h).bind_follows ((moves_get h).bind_follows (follows_refuse _ cs))

section Spaced

variable {ds : List Char} (hdepth : text.length < depth) (h : ds <:+ text)
  (hskip : Text.skipBlank ds = Text.skipBlank cs)

include hdepth h hskip

/-- The machine reads an operand as the reader does. It is in front of the blanks before the
operand, or of some of them. -/
theorem follows_operand :
    Follows text (operand text depth) ds (Rule.bare (Rule.operand cs)) := by
  refine (moves_skipBlanks h (h.length_le.trans_lt hdepth)).bind_follows ?_
  have hsuffix : Text.skipBlank ds <:+ text := (skipBlank_suffix ds).trans h
  rw [Rule.bare_operand, ← hskip]
  generalize Text.skipBlank ds = rest at hsuffix ⊢
  refine (moves_peek hsuffix).bind_follows ?_
  rcases rest with - | ⟨c, rest⟩
  · exact follows_noOperand hsuffix
  · dsimp only [List.head?_cons]
    split_ifs with hnumber hfield
    · exact (follows_number hdepth hsuffix).map
    · exact (follows_field hfield hsuffix).map
    · exact follows_noOperand hsuffix

/-- The machine reads a comparison sign as the reader does. -/
theorem follows_sign :
    Follows text (sign text depth) ds (Rule.bare (Rule.comparisonSign cs)) := by
  refine (moves_skipBlanks h (h.length_le.trans_lt hdepth)).bind_follows ?_
  have hsuffix : Text.skipBlank ds <:+ text := (skipBlank_suffix ds).trans h
  rw [Rule.bare_comparisonSign, ← hskip]
  generalize Text.skipBlank ds = rest at hsuffix ⊢
  refine (moves_remaining hsuffix).bind_follows ?_
  rcases hsign : Rule.sign? rest with - | ⟨sign, after⟩
  · exact (moves_found hsuffix).bind_follows ((moves_get hsuffix).bind_follows (follows_refuse _ _))
  · obtain rfl := Rule.eq_of_sign? hsign
    have hmove := moves_skip _ _ hsuffix
    exact hmove.bind_follows (moves_pure hmove.suffix).follows

/-- The machine reads a comparison as the reader does. -/
theorem follows_comparison :
    Follows text (comparison text depth) ds (Rule.bare (Rule.comparison cs)) := by
  have hsuffix : Text.skipBlank ds <:+ text := (skipBlank_suffix ds).trans h
  have hblanks := moves_skipBlanks h (h.length_le.trans_lt hdepth)
  rw [Rule.bare_comparison]
  refine hblanks.bind_follows ((moves_get hsuffix).bind_follows ?_)
  refine (follows_operand hdepth hsuffix ((Rule.skipBlank_skipBlank ds).trans hskip)).bind ?_
  intro left _ _ _ hleft hskipLeft
  refine (follows_sign hdepth hleft hskipLeft).bind ?_
  intro sign _ _ _ hsign hskipSign
  refine (follows_operand hdepth hsign hskipSign).bind ?_
  intro right _ _ _ hright hskipRight
  rcases left with f | x
  · exact follows_pure hright hskipRight
  · rcases right with f | y
    · exact follows_pure hright hskipRight
    · rw [hskip]
      exact follows_refuse _ _

/-- The machine looks for a closing bracket as the reader does. -/
theorem follows_closing :
    Follows text (closing text depth) ds (Rule.closing cs) := by
  refine (moves_skipBlanks h (h.length_le.trans_lt hdepth)).bind_follows ?_
  have hsuffix : Text.skipBlank ds <:+ text := (skipBlank_suffix ds).trans h
  rw [Rule.closing, ← hskip]
  generalize Text.skipBlank ds = rest at hsuffix ⊢
  refine (moves_peek hsuffix).bind_follows ?_
  rcases rest with - | ⟨c, rest⟩
  · exact (moves_get hsuffix).bind_follows (follows_refuse _ _)
  · by_cases hbracket : c = ')'
    · subst hbracket
      exact (moves_advance hsuffix).follows
    · simp only [List.head?_cons, beq_iff_eq, hbracket, if_false]
      split
      next heq => exact absurd (List.cons.inj heq).1 hbracket
      · exact (moves_get hsuffix).bind_follows (follows_refuse _ _)

/-- The machine reads a literal or a comparison as the reader does. -/
theorem follows_plain :
    Follows text (plain text depth) ds
      (match Rule.keyword? ['t', 'r', 'u', 'e'] cs with
      | some rest => .ok (.literal true, rest)
      | none =>
        match Rule.keyword? ['f', 'a', 'l', 's', 'e'] cs with
        | some rest => .ok (.literal false, rest)
        | none => Rule.bare (Rule.comparison cs)) := by
  rcases htrue : Rule.keyword? ['t', 'r', 'u', 'e'] cs with - | rest
  · have hmove := moves_keyword_none (by decide) hdepth h hskip htrue
    have hskip' := (Rule.skipBlank_skipBlank ds).trans hskip
    refine hmove.bind_follows ?_
    rcases hfalse : Rule.keyword? ['f', 'a', 'l', 's', 'e'] cs with - | rest
    · have hmove' := moves_keyword_none (by decide) hdepth hmove.suffix hskip' hfalse
      rw [Rule.skipBlank_skipBlank] at hmove'
      exact hmove'.bind_follows (follows_comparison hdepth hmove.suffix hskip')
    · have hmove' := moves_keyword_some (by decide) hdepth hmove.suffix hskip' hfalse
      exact hmove'.bind_follows (moves_pure hmove'.suffix).follows
  · have hmove := moves_keyword_some (by decide) hdepth h hskip htrue
    exact hmove.bind_follows (moves_pure hmove.suffix).follows

end Spaced

end Comparisons

/-! ### Phrases

The recursion is that of the reader: what it takes gets shorter. Every step of it costs the machine
one of its depth, and below that remains what the loops of the machine need for the whole text.
-/

mutual

theorem follows_disjunction {ds cs : List Char} {depth : Nat}
    (hdepth : text.length + 4 * cs.length + 4 < depth) (h : ds <:+ text)
    (hskip : Text.skipBlank ds = Text.skipBlank cs) :
    Follows text (disjunction text depth) ds (Rule.bare (Rule.disjunction cs)) := by
  rcases depth with - | depth
  · cases hdepth
  rw [disjunction, Rule.bare_disjunction]
  refine (follows_conjunction (by omega) h hskip).bind fun left rest _ hread hsuffix hskip' ↦ ?_
  have hlength : rest.length < cs.length := (Rule.bare_eq_ok_iff.1 hread).holds
  exact follows_disjuncts left (by omega) hsuffix hskip'
termination_by (cs.length, 3)

theorem follows_disjuncts {ds cs : List Char} {depth : Nat} (left : Expr Float)
    (hdepth : text.length + 4 * cs.length + 1 < depth) (h : ds <:+ text)
    (hskip : Text.skipBlank ds = Text.skipBlank cs) :
    Follows text (disjuncts text depth left) ds (Rule.bare (Rule.disjuncts left cs)) := by
  rcases depth with - | depth
  · cases hdepth
  have hdepth' : text.length < depth := by omega
  rw [disjuncts, Rule.bare_disjuncts]
  rcases hkey : Rule.keyword? ['o', 'r'] cs with - | rest
  · have hmove := moves_keyword_none (by decide) hdepth' h hskip hkey
    exact hmove.bind_follows (follows_pure hmove.suffix ((Rule.skipBlank_skipBlank ds).trans hskip))
  · have hmove := moves_keyword_some (by decide) hdepth' h hskip hkey
    have hlength := Rule.keyword?_length_lt (by decide) hkey
    refine hmove.bind_follows ((follows_conjunction (by omega) hmove.suffix rfl).bind ?_)
    intro right rest' _ hread hsuffix hskip'
    have hlength' : rest'.length < rest.length := (Rule.bare_eq_ok_iff.1 hread).holds
    exact follows_disjuncts (.or left right) (by omega) hsuffix hskip'
termination_by (cs.length, 0)

theorem follows_conjunction {ds cs : List Char} {depth : Nat}
    (hdepth : text.length + 4 * cs.length + 3 < depth) (h : ds <:+ text)
    (hskip : Text.skipBlank ds = Text.skipBlank cs) :
    Follows text (conjunction text depth) ds (Rule.bare (Rule.conjunction cs)) := by
  rcases depth with - | depth
  · cases hdepth
  rw [conjunction, Rule.bare_conjunction]
  refine (follows_factor (by omega) h hskip).bind fun left rest _ hread hsuffix hskip' ↦ ?_
  have hlength : rest.length < cs.length := (Rule.bare_eq_ok_iff.1 hread).holds
  exact follows_conjuncts left (by omega) hsuffix hskip'
termination_by (cs.length, 2)

theorem follows_conjuncts {ds cs : List Char} {depth : Nat} (left : Expr Float)
    (hdepth : text.length + 4 * cs.length + 1 < depth) (h : ds <:+ text)
    (hskip : Text.skipBlank ds = Text.skipBlank cs) :
    Follows text (conjuncts text depth left) ds (Rule.bare (Rule.conjuncts left cs)) := by
  rcases depth with - | depth
  · cases hdepth
  have hdepth' : text.length < depth := by omega
  rw [conjuncts, Rule.bare_conjuncts]
  rcases hkey : Rule.keyword? ['a', 'n', 'd'] cs with - | rest
  · have hmove := moves_keyword_none (by decide) hdepth' h hskip hkey
    exact hmove.bind_follows (follows_pure hmove.suffix ((Rule.skipBlank_skipBlank ds).trans hskip))
  · have hmove := moves_keyword_some (by decide) hdepth' h hskip hkey
    have hlength := Rule.keyword?_length_lt (by decide) hkey
    refine hmove.bind_follows ((follows_factor (by omega) hmove.suffix rfl).bind ?_)
    intro right rest' _ hread hsuffix hskip'
    have hlength' : rest'.length < rest.length := (Rule.bare_eq_ok_iff.1 hread).holds
    exact follows_conjuncts (.and left right) (by omega) hsuffix hskip'
termination_by (cs.length, 0)

theorem follows_factor {ds cs : List Char} {depth : Nat}
    (hdepth : text.length + 4 * cs.length + 2 < depth) (h : ds <:+ text)
    (hskip : Text.skipBlank ds = Text.skipBlank cs) :
    Follows text (factor text depth) ds (Rule.bare (Rule.factor cs)) := by
  rcases depth with - | depth
  · cases hdepth
  have hdepth' : text.length < depth := by omega
  rw [factor, Rule.bare_factor]
  rcases hnot : Rule.keyword? ['n', 'o', 't'] cs with - | rest
  · have hmove := moves_keyword_none (by decide) hdepth' h hskip hnot
    have hblanks := moves_skipBlanks hmove.suffix (hmove.suffix.length_le.trans_lt hdepth')
    rw [Rule.skipBlank_skipBlank, hskip] at hblanks
    rw [hskip] at hmove
    refine hmove.bind_follows (hblanks.bind_follows ((moves_peek hmove.suffix).bind_follows ?_))
    by_cases hopen : (Text.skipBlank cs).head? = some '('
    · obtain ⟨rest, hrest⟩ := List.head?_eq_some_iff.1 hopen
      have hlength : rest.length < cs.length := by
        have hle := Text.skipBlank_length_le cs
        rw [hrest] at hle
        exact hle
      have hsuffix := hmove.suffix
      rw [hrest] at hsuffix ⊢
      have hadvance := moves_advance hsuffix
      refine hadvance.bind_follows
        ((follows_disjunction (by omega) hadvance.suffix rfl).bind ?_)
      intro inner rest' _ hread hsuffix' hskip'
      exact (follows_closing hdepth' hsuffix' hskip').bind
        fun _ _ _ _ h' hskip'' ↦ follows_pure h' hskip''
    · rw [if_neg (mt beq_iff_eq.1 hopen)]
      dsimp only
      split
      next rest hrest => exact absurd (by rw [hrest]; rfl) hopen
      · exact follows_plain hdepth' hmove.suffix (Rule.skipBlank_skipBlank cs)
  · have hmove := moves_keyword_some (by decide) hdepth' h hskip hnot
    have hlength := Rule.keyword?_length_lt (by decide) hnot
    exact hmove.bind_follows (follows_factor (by omega) hmove.suffix rfl).map
termination_by (cs.length, 1)

end

/-! ### Whole texts -/

/-- The position is at the end of the text exactly if nothing is left of the text. -/
theorem byteLength_le_positionOf_iff {cs : List Char} (h : cs <:+ text) :
    Text.byteLength text ≤ positionOf text cs ↔ cs = [] := by
  obtain ⟨done, rfl⟩ := h
  rw [Text.positionOf_append, Text.byteLength_append]
  rcases cs with - | ⟨c, rest⟩
  · simp
  · have := c.utf8Size_pos
    simp only [Text.byteLength_cons, reduceCtorEq, iff_false]
    omega

/-- A text begins at position zero. -/
theorem positionOf_self (text : List Char) : positionOf text text = 0 :=
  Nat.sub_self _

/-- The machine reads a whole text as the reader does. -/
theorem follows_rule (hdepth : 5 * text.length + 4 < depth) :
    Follows text (rule text depth) text (do .ok (← Rule.parseChars text, [])) := by
  have hblanks := moves_skipBlanks (List.suffix_refl text) (by omega : text.length < depth)
  refine hblanks.bind_follows ((moves_get hblanks.suffix).bind_follows ?_)
  have hsuffix := hblanks.suffix
  simp only [byteLength_le_positionOf_iff hsuffix]
  rw [Rule.parseChars_eq]
  generalize Text.skipBlank text = cs at hsuffix ⊢
  have hlength := hsuffix.length_le
  rcases cs with - | ⟨c, cs⟩
  · rw [if_pos rfl, ← positionOf_self text]
    exact follows_refuse .emptyRule text
  · rw [if_neg (List.cons_ne_nil c cs)]
    dsimp only
    rw [bind_assoc]
    refine (follows_disjunction (by omega) hsuffix rfl).bind fun e rest rest' _ hsuffix' hskip ↦ ?_
    have hlength' := hsuffix'.length_le
    have hblanks' := moves_skipBlanks hsuffix' (by omega : rest'.length < depth)
    have hleft := hblanks'.suffix
    refine hblanks'.bind_follows ((moves_get hleft).bind_follows ?_)
    simp only [byteLength_le_positionOf_iff hleft]
    rw [hskip] at hleft ⊢
    generalize Text.skipBlank rest = left at hleft ⊢
    rcases left with - | ⟨d, left⟩
    · rw [if_pos rfl]
      exact (moves_pure hleft).follows
    · rw [if_neg (List.cons_ne_nil d left)]
      exact (moves_found hleft).bind_follows
        ((moves_get hleft).bind_follows (follows_refuse _ _))

/-- What the machine makes of a text that it is started on. -/
theorem Follows.run'_eq {x : Cursor β} {y : Except Stop (β × List Char)}
    (h : Follows text x text y) : (x.run' 0).run =
      some ((y.map Prod.fst).mapError fun stop ↦ .refused (.ofStop text stop)) := by
  rw [← positionOf_self text]
  show Prod.fst <$> (x (positionOf text text) : ExceptT Halt Option (β × Nat)) = _
  rcases y with stop | ⟨b, rest⟩
  · rw [show x (positionOf text text) = _ from h]
    rfl
  · obtain ⟨rest', -, hmoves⟩ := h
    rw [hmoves.eq]
    rfl

end Cursor

/-- **The machine that reads by position reads what the reader reads.** On every text it comes to an
end, within a depth that is linear in the length of the text, it never cuts the text anywhere but
between two characters, and it has the rule or the error of the reader. -/
theorem Expr.parseByPosition_eq {text : String} {depth : Nat} (h : 5 * text.length + 4 < depth) :
    Expr.parseByPosition depth text = some ((Expr.parse text).mapError .refused) := by
  rw [← String.length_toList] at h
  rw [Expr.parseByPosition, (Cursor.follows_rule h).run'_eq, Expr.parse]
  rcases Rule.parseChars text.toList with stop | e <;> rfl

end BarReplay
