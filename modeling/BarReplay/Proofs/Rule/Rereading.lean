import BarReplay.Proofs.Decimal.Overflow
import BarReplay.Proofs.Rule.Canonical
import BarReplay.Proofs.Rule.Comparisons

/-!
# Rules read again

The canonical text of a rule that was read from a text reads back as the rule exactly if all its
constants are finite (`Expr.reread_of_parse`). They are when the numbers in the text are below the
bound where doubles overflow, because every constant stands in the text. A number beyond the bound
is read as an infinity, and the canonical text of an infinity is a word that names no field. What is
shown of such a rule is refused as a rule (`Unread.exists_error`).
-/

namespace BarReplay

open Decimal (IsNearest Numeral NumeralText overflowBound topRung)

/-! ### Infinite constants -/

/-- The two infinities. -/
def IsInfinite (x : Float) : Prop :=
  x = 1 / 0 ∨ x = -(1 / 0)

/-- The double is nearest to a number in the text, up to its sign, and it is finite exactly if the
number is below the bound where doubles overflow. -/
def IsRoundedIn (text : List Char) (x : Float) : Prop :=
  ∃ (before numeral after : List Char) (n : Numeral) (y : Float),
    text = before ++ numeral ++ after ∧ NumeralText n numeral ∧ IsNearest n.value y ∧
      (x = y ∨ x = -y) ∧ (x.isFinite = true ↔ n.value < overflowBound)

/-- All constants of the tree are finite. -/
def Expr.IsBounded (e : Expr Float) : Prop :=
  ∀ sides ∈ e.comparisons, ∀ x, HasConstant sides x → x.isFinite = true

/-- A double without a sign is finite or infinity. -/
theorem isFinite_or_eq_infinity {x : Float} (h : x.toBits.toNat ≤ topRung) :
    x.isFinite = true ∨ x = 1 / 0 := by
  rcases h.lt_or_eq with hlt | heq
  · exact .inl (Decimal.isFinite_iff.2 ((Nat.mod_le _ _).trans_lt hlt))
  · exact .inr (Decimal.float_ext (heq.trans (by decide +kernel)))

/-- The negation of a double without a sign is finite if the double is. -/
theorem isFinite_neg {x : Float} (h : x.toBits.toNat ≤ topRung) :
    (-x).isFinite = x.isFinite := by
  rcases h.lt_or_eq with hlt | heq
  · have hbits := Decimal.toBits_neg hlt
    have hlow : (-x).toBits.toNat % 2 ^ 63 = x.toBits.toNat % 2 ^ 63 := by omega
    rw [Bool.eq_iff_iff, Decimal.isFinite_iff, Decimal.isFinite_iff, hlow]
  · obtain rfl : x = 1 / 0 := Decimal.float_ext (heq.trans (by decide +kernel))
    decide +kernel

namespace IsWrittenIn

variable {text : List Char} {x : Float} (h : IsWrittenIn text x)

include h

/-- What is written is finite or infinite, and never the double that is no number. -/
theorem isFinite_or_isInfinite : x.isFinite = true ∨ IsInfinite x := by
  obtain ⟨_, _, _, n, y, _, _, hnearest, hx⟩ := h
  have hle : y.toBits.toNat ≤ topRung := (Decimal.isNearest_iff.1 hnearest).le_top
  rcases isFinite_or_eq_infinity hle with hfinite | rfl
  · rcases hx with rfl | rfl
    · exact .inl hfinite
    · exact .inl ((isFinite_neg hle).trans hfinite)
  · exact .inr hx

theorem isRoundedIn : IsRoundedIn text x := by
  obtain ⟨before, numeral, after, n, y, htext, hnumeral, hnearest, hx⟩ := h
  have hle : y.toBits.toNat ≤ topRung := (Decimal.isNearest_iff.1 hnearest).le_top
  have hfinite : x.isFinite = y.isFinite := by
    rcases hx with rfl | rfl
    · rfl
    · exact isFinite_neg hle
  refine ⟨before, numeral, after, n, y, htext, hnumeral, hnearest, hx, ?_⟩
  rw [hfinite]
  exact hnearest.isFinite_iff

end IsWrittenIn

theorem Operand.isFinite_iff {o : Operand Float} :
    o.IsFinite ↔ ∀ x, o = .constant x → x.isFinite = true := by
  cases o with
  | field f => exact iff_of_true trivial fun x hx ↦ by cases hx
  | constant x => exact ⟨fun h y hy ↦ by cases hy; exact h, fun h ↦ h x rfl⟩

/-- A tree is readable if its constants are finite and its comparisons read fields. -/
theorem Expr.isReadable_iff {e : Expr Float} : e.IsReadable ↔
    e.IsBounded ∧
      ∀ sides ∈ e.comparisons, ¬ (Rule.IsConstant sides.1 ∧ Rule.IsConstant sides.2) := by
  rw [IsBounded, ← forall₂_and]
  induction e with
  | literal value => exact iff_of_true trivial fun _ hs ↦ absurd hs List.not_mem_nil
  | compare left sign right =>
    simp only [IsReadable, comparisons, List.forall_mem_singleton, HasConstant,
      Operand.isFinite_iff, or_imp, forall_and, and_assoc]
  | and left right ihl ihr | or left right ihl ihr =>
    simp only [IsReadable, comparisons, List.forall_mem_append, ihl, ihr]
  | not inner ih => exact ih

/-- An operand that a text can hold is finite or infinite. -/
theorem Operand.isFinite_or_isInfinite {text : List Char} {o : Operand Float}
    (h : ∀ x, o = .constant x → IsWrittenIn text x) :
    o.IsFinite ∨ ∃ x, o = .constant x ∧ IsInfinite x := by
  cases o with
  | field f => exact .inl trivial
  | constant x => exact (h x rfl).isFinite_or_isInfinite.imp id fun hx ↦ ⟨x, rfl, hx⟩

namespace Rule

/-! ### Infinite operands -/

/-- The canonical text of an infinity is a word, with a sign or without. -/
theorem messageChars_of_isInfinite {x : Float} (h : IsInfinite x) :
    Decimal.messageChars x = "inf".toList ∨ Decimal.messageChars x = '-' :: "inf".toList := by
  rcases h with rfl | rfl
  · exact .inl (by decide +kernel)
  · exact .inr (by decide +kernel)

/-- The canonical text of an infinity starts with a character that no keyword starts with. -/
theorem exists_messageChars_of_isInfinite {x : Float} (h : IsInfinite x) (rest : List Char) :
    ∃ c text, Text.skipBlank (Decimal.messageChars x ++ rest) = c :: text ∧
      (c = 'i' ∨ c = '-') := by
  rcases messageChars_of_isInfinite h with hchars | hchars
  · exact ⟨'i', _, by rw [hchars]; exact skipBlank_cons (by decide) _, .inl rfl⟩
  · exact ⟨'-', _, by rw [hchars]; exact skipBlank_cons (by decide) _, .inr rfl⟩

/-- No operand is scanned off the canonical text of an infinity: the word is no field, and no number
starts after the sign. -/
theorem not_yields_operand_of_isInfinite {x : Float} (hx : IsInfinite x) {cs rest : List Char}
    (hcs : Text.skipBlank cs = Text.skipBlank (Decimal.messageChars x ++ rest))
    (hrest : Text.startsWord rest = false) {o : Operand Float} {r : List Char} :
    ¬ Yields (operand cs) o r := by
  rw [yields_operand_iff]
  rintro ⟨c, text, hskip, hoperand⟩
  rw [hskip] at hcs
  rcases messageChars_of_isInfinite hx with hchars | hchars
  · rw [hchars] at hcs
    obtain ⟨rfl, rfl⟩ := List.cons.inj (hcs.trans (skipBlank_cons (by decide) _))
    obtain ⟨hnumber, -⟩ | ⟨-, -, f, -, hfield⟩ := hoperand
    · exact absurd hnumber (by decide)
    · rw [yields_fieldWord_iff (by decide)] at hfield
      have hword : Word "inf".toList ("inf".toList ++ rest) rest :=
        .mk (List.all_eq_true.1 (by decide)) hrest (by decide)
      have hname : f.name.toList = "inf".toList := (hfield.eq hword).1
      revert hname
      cases f <;> decide
  · rw [hchars] at hcs
    obtain ⟨rfl, rfl⟩ := List.cons.inj (hcs.trans (skipBlank_cons (by decide) _))
    obtain ⟨-, y, -, hnumber⟩ | ⟨hnumber, -⟩ := hoperand
    · obtain ⟨n, hscan, -⟩ := yields_number_iff.1 hnumber
      have hnone : Numeral.scan? (minus ('-' :: "inf".toList.append rest)).2 = none := rfl
      cases hnone.symm.trans hscan
    · exact absurd hnumber (by decide)

/-! ### Text that is refused -/

/-- The reader finds no factor at the canonical text of the tree, whatever follows it except more of
a word. -/
def Unread (e : Expr Float) : Prop :=
  ∀ cs rest, Text.skipBlank cs = Text.skipBlank (e.chars ++ rest) → Text.startsWord rest = false →
    ∀ e' r, ¬ Yields (factor cs) e' r

/-- A scanner yields one thing. -/
theorem Yields.eq {β : Type} {p : List Char → Prop}
    {x : Except Stop (β × { r : List Char // p r })} {b b' : β} {rest rest' : List Char}
    (h : Yields x b rest) (h' : Yields x b' rest') : b = b' ∧ rest = rest' := by
  obtain ⟨_, rfl⟩ := h
  exact (yields_ok_iff.1 h').imp Eq.symm Eq.symm

/-- There is no keyword where another letter stands than its first one. -/
theorem keyword?_eq_none_of_ne {c d : Char} {ds cs text : List Char}
    (hskip : Text.skipBlank cs = c :: text) (h : c.toLower ≠ d) : keyword? (d :: ds) cs = none := by
  simp only [keyword?, hskip]
  refine if_neg fun hkey ↦ h ?_
  exact (List.cons.inj hkey.1).1

/-- A factor that starts with neither a keyword nor a bracket is a comparison. -/
theorem yields_comparison_of_yields_factor {cs rest : List Char} {e : Expr Float}
    (hopen : (Text.skipBlank cs).head? ≠ some '(') (hnot : keyword? ['n', 'o', 't'] cs = none)
    (htrue : keyword? ['t', 'r', 'u', 'e'] cs = none)
    (hfalse : keyword? ['f', 'a', 'l', 's', 'e'] cs = none) (h : Yields (factor cs) e rest) :
    Yields (comparison cs) e rest := by
  rcases (yields_factor_plain_iff hnot hopen).1 h with ⟨hkey, -⟩ | ⟨-, ⟨hkey, -⟩ | ⟨-, h⟩⟩
  · rw [htrue] at hkey; cases hkey
  · rw [hfalse] at hkey; cases hkey
  · exact h

/-- A comparison with an infinity on the left is refused at its beginning. -/
theorem unread_left {x : Float} (hx : IsInfinite x) (sign : Comparison) (right : Operand Float) :
    Unread (.compare (.constant x) sign right) := by
  intro cs rest hcs hrest e' r h
  have hcs : Text.skipBlank cs = Text.skipBlank (Decimal.messageChars x ++
      ' ' :: (sign.sign.toList ++ ' ' :: (right.chars ++ rest))) := by
    simpa [Expr.chars, Operand.chars] using hcs
  obtain ⟨c, text, hskip, hc⟩ := exists_messageChars_of_isInfinite hx _
  have hskip := hcs.trans hskip
  have hopen : (Text.skipBlank cs).head? ≠ some '(' := by
    rw [hskip]
    rcases hc with rfl | rfl <;> simp
  have hne (d : Char) (hd : d = 'n' ∨ d = 't' ∨ d = 'f') : c.toLower ≠ d := by
    rcases hc with rfl | rfl <;> rcases hd with rfl | rfl | rfl <;> decide
  have hcomparison := yields_comparison_of_yields_factor hopen
    (keyword?_eq_none_of_ne hskip (hne _ (.inl rfl)))
    (keyword?_eq_none_of_ne hskip (hne _ (.inr (.inl rfl))))
    (keyword?_eq_none_of_ne hskip (hne _ (.inr (.inr rfl)))) h
  obtain ⟨_, _, _, _, _, hleft, -⟩ := yields_comparison_iff.1 hcomparison
  exact not_yields_operand_of_isInfinite hx hcs rfl hleft

/-- A comparison with an infinity on the right is refused after its sign. -/
theorem unread_right {left : Operand Float} (hleft : left.IsFinite) (sign : Comparison) {x : Float}
    (hx : IsInfinite x) : Unread (.compare left sign (.constant x)) := by
  intro cs rest hcs hrest e' r h
  have hfirst : Side left cs
      (' ' :: (sign.sign.toList ++ ' ' :: (Decimal.messageChars x ++ rest))) :=
    Side.congr (side_chars hleft rfl) (by simpa [Expr.chars, Operand.chars] using hcs)
  have hcomparison := yields_comparison_of_yields_factor (hfirst.head?_ne (by decide) (by decide))
    (hfirst.keyword? (by decide) (by decide)) (hfirst.keyword? (by decide) (by decide))
    (hfirst.keyword? (by decide) (by decide)) h
  obtain ⟨_, _, _, _, _, hoperand, hsign, hright, -⟩ := yields_comparison_iff.1 hcomparison
  obtain ⟨rfl, rfl⟩ := hoperand.eq (hfirst.yields (by simp))
  have hbetween : Text.skipBlank (' ' :: (sign.sign.toList ++
      ' ' :: (Decimal.messageChars x ++ rest))) = sign.sign.toList ++ _ :=
    (spaced_symbol_iff (startsPrintable_sign sign)).1 (spaced_of_token_space .mk)
  rw [yields_comparisonSign_iff, hbetween, sign?_append (by simp)] at hsign
  cases hsign
  exact not_yields_operand_of_isInfinite hx (skipBlank_space _) hrest hright

theorem Unread.not {inner : Expr Float} (h : Unread inner) : Unread (.not inner) := by
  intro cs rest hcs hrest e' r hfactor
  have hword : IsSpelled "not".toList := by decide
  have hnot : Keyword "not" ("not".toList ++ ' ' :: (inner.chars ++ rest))
      (' ' :: (inner.chars ++ rest)) := spaced_of_token (hword.word rfl)
  have hkey := (keyword?_eq_some_iff (by decide)).2
    (hnot.congr (solid_word (IsSmall.starts (by decide))) hcs)
  obtain ⟨_, hinner, -⟩ := (yields_factor_not_iff hkey).1 hfactor
  exact h _ rest (skipBlank_space _) hrest _ _ hinner

/-- Where there is no factor there is no conjunction. -/
theorem Unread.not_yields_conjunction {e : Expr Float} (h : Unread e) {cs rest : List Char}
    (hcs : Text.skipBlank cs = Text.skipBlank (e.chars ++ rest))
    (hrest : Text.startsWord rest = false) {e' : Expr Float} {r : List Char} :
    ¬ Yields (conjunction cs) e' r := by
  intro hyields
  obtain ⟨_, _, hfactor, -⟩ := yields_conjunction_iff.1 hyields
  exact h cs rest hcs hrest _ _ hfactor

/-- A pair in brackets is refused if the reader finds no disjunction after the opening bracket. -/
theorem not_yields_factor_of_brackets {cs text : List Char}
    (hopen : Text.skipBlank cs = '(' :: text) (h : ∀ e r, ¬ Yields (disjunction text) e r)
    (e : Expr Float) (r : List Char) : ¬ Yields (factor cs) e r := by
  intro hfactor
  have hnot : keyword? ['n', 'o', 't'] cs = none := keyword?_eq_none_of_ne hopen (by decide)
  obtain ⟨_, hinner, -⟩ := (yields_factor_brackets_iff hnot hopen).1 hfactor
  exact h _ _ hinner

/-- The reader finds a readable tree before a blank, and nothing but that tree. -/
theorem ReadsBack.eq_of_yields {e : Expr Float} (h : ReadsBack e) {rest : List Char}
    {e' : Expr Float} {r : List Char} (hyields : Yields (factor (e.chars ++ ' ' :: rest)) e' r) :
    e' = e ∧ r = ' ' :: rest :=
  hyields.eq ((h (' ' :: rest) rfl).found (by simp))

theorem unread_and {left right : Expr Float} (h : Unread left ∨ ReadsBack left ∧ Unread right) :
    Unread (.and left right) := by
  intro cs rest hcs hrest
  have hopen : Text.skipBlank cs =
      '(' :: (left.chars ++ ' ' :: ("and".toList ++ ' ' :: (right.chars ++ ')' :: rest))) := by
    rw [hcs, Expr.chars]
    simp [skipBlank_cons (c := '(') (by decide)]
  refine not_yields_factor_of_brackets hopen fun e r hyields ↦ ?_
  obtain ⟨_, _, hconjunction, -⟩ := yields_disjunction_iff.1 hyields
  obtain ⟨_, _, hfirst, hmore⟩ := yields_conjunction_iff.1 hconjunction
  rcases h with hleft | ⟨hleft, hright⟩
  · exact hleft _ _ rfl rfl _ _ hfirst
  · obtain ⟨rfl, rfl⟩ := hleft.eq_of_yields hfirst
    have hword : IsSpelled "and".toList := by decide
    have hsmall : IsSmall "and".toList := by decide
    have hends : Text.startsWord (' ' :: (right.chars ++ ')' :: rest)) = false := rfl
    have hkey := (keyword?_eq_some_iff hsmall).2 (spaced_of_token_space (hword.word hends))
    rcases yields_conjuncts_iff.1 hmore with ⟨hnone, -⟩ | ⟨_, _, _, hsome, hsecond, -⟩
    · cases hnone.symm.trans hkey
    · obtain rfl := Option.some.inj (hkey.symm.trans hsome)
      exact hright _ (')' :: rest) (skipBlank_space _) rfl _ _ hsecond

theorem unread_or {left right : Expr Float} (h : Unread left ∨ ReadsBack left ∧ Unread right) :
    Unread (.or left right) := by
  intro cs rest hcs hrest
  have hopen : Text.skipBlank cs =
      '(' :: (left.chars ++ ' ' :: ("or".toList ++ ' ' :: (right.chars ++ ')' :: rest))) := by
    rw [hcs, Expr.chars]
    simp [skipBlank_cons (c := '(') (by decide)]
  refine not_yields_factor_of_brackets hopen fun e r hyields ↦ ?_
  obtain ⟨_, _, hconjunction, hmore⟩ := yields_disjunction_iff.1 hyields
  rcases h with hleft | ⟨hleft, hright⟩
  · exact hleft.not_yields_conjunction rfl rfl hconjunction
  · obtain ⟨_, _, hfirst, hfactors⟩ := yields_conjunction_iff.1 hconjunction
    obtain ⟨rfl, rfl⟩ := hleft.eq_of_yields hfirst
    have hword : IsSpelled "or".toList := by decide
    have hsmall : IsSmall "or".toList := by decide
    have hends : Text.startsWord (' ' :: (right.chars ++ ')' :: rest)) = false := rfl
    have hor : Keyword "or" _ _ := spaced_of_token_space (hword.word hends)
    have hkey := (keyword?_eq_some_iff hsmall).2 hor
    -- the chain of factors ends at `or`, so the second part starts a conjunction
    have hand : keyword? ['a', 'n', 'd'] _ = none :=
      keyword?_eq_none_of_keyword hor (by decide) hsmall (by decide)
    rcases yields_conjuncts_iff.1 hfactors with ⟨-, rfl, rfl⟩ | ⟨_, _, _, hsome, -⟩
    · rcases yields_disjuncts_iff.1 hmore with ⟨hnone, -⟩ | ⟨_, _, _, hsome, hsecond, -⟩
      · cases hnone.symm.trans hkey
      · obtain rfl := Option.some.inj (hkey.symm.trans hsome)
        exact hright.not_yields_conjunction (skipBlank_space _) rfl hsecond
    · cases hand.symm.trans hsome

/-- Of a pair that is not readable, the first part that is not is refused. -/
theorem unread_parts {left right : Expr Float} (hleft : ¬ left.IsReadable → Unread left)
    (hright : ¬ right.IsReadable → Unread right) (h : ¬ (left.IsReadable ∧ right.IsReadable)) :
    Unread left ∨ ReadsBack left ∧ Unread right := by
  by_cases hreadable : left.IsReadable
  · exact .inr ⟨readsBack hreadable, hright fun hr ↦ h ⟨hreadable, hr⟩⟩
  · exact .inl (hleft hreadable)

/-- A tree that compares what a text can hold is refused if it is not readable. -/
theorem unread_of_not_isReadable {text : List Char} {e : Expr Float}
    (h : ∀ sides ∈ e.comparisons, ComparedIn text sides) (he : ¬ e.IsReadable) : Unread e := by
  induction e with
  | literal value => exact absurd trivial he
  | compare left sign right =>
    obtain ⟨hreads, hwritten⟩ := h (left, right) (List.mem_singleton_self _)
    obtain hleft | ⟨x, rfl, hx⟩ :=
      Operand.isFinite_or_isInfinite fun x hx ↦ hwritten x (.inl hx)
    · obtain hright | ⟨x, rfl, hx⟩ :=
        Operand.isFinite_or_isInfinite fun x hx ↦ hwritten x (.inr hx)
      · exact absurd ⟨hleft, hright, hreads⟩ he
      · exact unread_right hleft sign hx
    · exact unread_left hx sign right
  | and left right ihl ihr =>
    exact unread_and (unread_parts (ihl fun sides hs ↦ h sides (List.mem_append_left _ hs))
      (ihr fun sides hs ↦ h sides (List.mem_append_right _ hs)) he)
  | or left right ihl ihr =>
    exact unread_or (unread_parts (ihl fun sides hs ↦ h sides (List.mem_append_left _ hs))
      (ihr fun sides hs ↦ h sides (List.mem_append_right _ hs)) he)
  | not inner ih => exact (ih h he).not

/-- The canonical text of such a tree is no rule. -/
theorem Unread.exists_error {e : Expr Float} (h : Unread e) :
    ∃ error, Expr.parse e.text = .error error := by
  cases hparse : Expr.parse e.text with
  | error error => exact ⟨error, rfl⟩
  | ok e' =>
    obtain ⟨blanks, hblank, hderives⟩ := parse_eq_ok_iff.1 hparse
    have hyields := hderives.found.disjunction_end (closes_of_allBlank hblank)
    obtain ⟨_, _, hconjunction, -⟩ := yields_disjunction_iff.1 hyields
    rw [Expr.text, String.toList_ofList] at hconjunction
    exact absurd hconjunction (h.not_yields_conjunction (by rw [List.append_nil]) rfl)

end Rule

/-- **What is read is read again exactly if its constants are finite.** Every comparison in a rule
that was read from a text has a field, and its constants are numbers of the text, rounded, which are
finite as long as the numbers are below the bound where doubles overflow. If all constants are
finite, the canonical text is read as the same rule; and if one of them is not, it is refused. -/
theorem Expr.reread_of_parse {text : String} {e : Expr Float} (h : Expr.parse text = .ok e) :
    (∀ sides ∈ e.comparisons, ¬ (Rule.IsConstant sides.1 ∧ Rule.IsConstant sides.2) ∧
        ∀ x, HasConstant sides x → IsRoundedIn text.toList x) ∧
      (e.IsBounded → Expr.parse e.text = .ok e) ∧
      (¬ e.IsBounded → ∃ error, Expr.parse e.text = .error error) := by
  have hcompared := comparisons_of_parse h
  have hreadable : e.IsReadable ↔ e.IsBounded :=
    isReadable_iff.trans (and_iff_left fun sides hs ↦ (hcompared sides hs).reads)
  refine ⟨fun sides hs ↦ ?_, fun hbounded ↦ ?_, fun hunbounded ↦ ?_⟩
  · obtain ⟨hreads, hwritten⟩ := hcompared sides hs
    exact ⟨hreads, fun x hx ↦ (hwritten x hx).isRoundedIn⟩
  · exact parse_eq_ok_iff.2 (Rule.isRule_text (hreadable.2 hbounded))
  · exact (Rule.unread_of_not_isReadable hcompared (mt hreadable.1 hunbounded)).exists_error

/-- Some constant of the rule is infinite. -/
theorem Sample.not_isBounded_unbounded : ¬ Sample.unbounded.IsBounded := by
  intro hbounded
  have hfinite := hbounded _ (List.mem_singleton_self _) (1 / 0) (.inr rfl)
  exact absurd hfinite (by decide +kernel)

/-- A rule that is read again and a rule that is not. -/
theorem Expr.sample_reread :
    Expr.parse sampleExpr.text = .ok sampleExpr ∧
      IsRoundedIn sampleExpr.text.toList (-0.5) ∧ sampleExpr.IsBounded ∧
      Expr.parse sampleExpr.text = .ok sampleExpr ∧
      Expr.parse "rsi == 1e999" = .ok Sample.unbounded ∧
      IsRoundedIn "rsi == 1e999".toList (1 / 0) ∧ ¬ Sample.unbounded.IsBounded ∧
      ∃ error, Expr.parse Sample.unbounded.text = .error error := by
  have hreadable : sampleExpr.IsReadable := by decide
  have hbounded := (isReadable_iff.1 hreadable).1
  have hparse : Expr.parse sampleExpr.text = .ok sampleExpr :=
    parse_eq_ok_iff.2 (Rule.isRule_text hreadable)
  obtain ⟨hfinite, hagain, -⟩ := Expr.reread_of_parse hparse
  obtain ⟨hinfinite, -, hrefused⟩ := Expr.reread_of_parse Sample.parse_unbounded
  exact ⟨hparse, (hfinite _ List.mem_cons_self).2 _ (.inr rfl), hbounded, hagain hbounded,
    Sample.parse_unbounded, (hinfinite _ List.mem_cons_self).2 _ (.inr rfl),
    Sample.not_isBounded_unbounded, hrefused Sample.not_isBounded_unbounded⟩

/-- An infinite constant comes out of a text in which every number is written with digits, and the
text that is shown of the rule is refused. -/
theorem Expr.unbounded_not_reread :
    Expr.parse "rsi == 1e999" = .ok Sample.unbounded ∧
      HasConstant (.field .rsi, .constant (1 / 0)) (1 / 0) ∧
      Sample.unbounded.comparisons = [(.field .rsi, .constant (1 / 0))] ∧
      ((1 / 0 : Float)).isFinite = false ∧ Sample.unbounded.text = "rsi == inf" ∧
      ∃ error, Expr.parse "rsi == inf" = .error error := by
  have htext : Sample.unbounded.text = "rsi == inf" := by decide +kernel
  have hunread := Rule.unread_of_not_isReadable (comparisons_of_parse Sample.parse_unbounded)
    fun hreadable ↦ Sample.not_isBounded_unbounded (isReadable_iff.1 hreadable).1
  exact ⟨Sample.parse_unbounded, .inr rfl, rfl, by decide +kernel, htext,
    htext ▸ hunread.exists_error⟩

end BarReplay
