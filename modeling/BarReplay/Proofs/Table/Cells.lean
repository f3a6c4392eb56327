import BarReplay.Proofs.Decimal.Bounds
import BarReplay.Proofs.Rule.Numbers
import BarReplay.Table.Bars

/-!
# What a cell says

A cell that can be read says one of three things, whatever blanks are around it and in either letter
case: nothing, infinity, or a number. Nothing is said by an empty cell, by `null`, and by `nan` with
a sign or without one. A number is written as a numeral with a sign or without one, and what is read
is the double that it rounds to, which is not finite if the number is too large. So the text of a
cell decides which kind of amount is read from it (`isNaN_iff_saysNothing`,
`isFinite_iff_saysAmount`, `isInfinite_iff_saysBeyond`).
-/

namespace BarReplay

namespace Decimal

/-! ### Signs -/

/-- A text behind a sign or none. The flag tells a minus. -/
inductive Behind : Bool → List Char → List Char → Prop where
  | bare {text : List Char} : Behind false text text
  | plus {text : List Char} : Behind false text ('+' :: text)
  | minus {text : List Char} : Behind true text ('-' :: text)

/-- The value, or its opposite. -/
def withSign {α : Type} [Neg α] (negative : Bool) (x : α) : α :=
  if negative then -x else x

/-- A number without a sign does not start with one. -/
theorem readUnsigned?_sign {c : Char} (h : c = '-' ∨ c = '+') (cs : List Char) :
    readUnsigned? (c :: cs) = none := by
  have hname (d : Char) (ds : List Char) (hd : d.isLower = true) :
      Text.asciiLower (c :: cs) ≠ d :: ds := by
    intro heq
    obtain ⟨rfl, -⟩ := List.cons.inj heq
    rcases h with rfl | rfl <;> cases hd
  have hscan : Numeral.scan? (c :: cs) = none := by rcases h with rfl | rfl <;> rfl
  rw [readUnsigned?_of_no_name hname, hscan]
  rfl

/-- A number is read behind its sign. -/
theorem readFloat?_eq_some_iff {cs : List Char} {x : Float} :
    readFloat? cs = some x ↔ ∃ negative text y, Behind negative text cs ∧
      readUnsigned? text = some y ∧ x = withSign negative y := by
  unfold readFloat?
  split
  next cs =>
    rw [Option.map_eq_some_iff]
    constructor
    · rintro ⟨y, hy, rfl⟩
      exact ⟨true, cs, y, .minus, hy, rfl⟩
    · rintro ⟨_, _, y, - | - | -, hy, rfl⟩
      · rw [readUnsigned?_sign (.inl rfl)] at hy
        cases hy
      · exact ⟨y, hy, rfl⟩
  next cs =>
    constructor
    · exact fun h ↦ ⟨false, cs, x, .plus, h, rfl⟩
    · rintro ⟨_, _, y, - | - | -, hy, rfl⟩
      · rw [readUnsigned?_sign (.inr rfl)] at hy
        cases hy
      · exact hy
  next hminus hplus =>
    constructor
    · exact fun h ↦ ⟨false, cs, x, .bare, h, rfl⟩
    · rintro ⟨_, _, y, - | - | -, hy, rfl⟩
      · exact hy
      · exact absurd rfl (hplus _)
      · exact absurd rfl (hminus _)

/-- The text is a name of infinity. -/
def NamesInfinity (text : List Char) : Prop :=
  Text.asciiLower text = "inf".toList ∨ Text.asciiLower text = "infinity".toList

/-- The text is the name of what is no number. -/
def NamesNaN (text : List Char) : Prop :=
  Text.asciiLower text = "nan".toList

/-- Without a sign, what is read has a name or is a numeral. -/
theorem readUnsigned?_eq_some_iff {text : List Char} {x : Float} :
    readUnsigned? text = some x ↔ (NamesInfinity text ∧ x = 1.0 / 0.0) ∨
      (NamesNaN text ∧ x = 0.0 / 0.0) ∨ ∃ n, NumeralText n text ∧ x = n.toFloat := by
  constructor
  · intro h
    simp only [readUnsigned?, String.ofList_eq] at h
    split_ifs at h with hinf hnan
    · exact .inl ⟨hinf, (Option.some.inj h).symm⟩
    · exact .inr (.inl ⟨hnan, (Option.some.inj h).symm⟩)
    · split at h
      next n hscan =>
        obtain ⟨numeral, htext, hnumeral⟩ := Numeral.scan?_sound hscan
        rw [List.append_nil] at htext
        exact .inr (.inr ⟨n, htext ▸ hnumeral, (Option.some.inj h).symm⟩)
      · cases h
  · rintro (⟨hinf, rfl⟩ | ⟨hnan, rfl⟩ | ⟨n, hnumeral, rfl⟩)
    · rw [NamesInfinity] at hinf
      simp only [readUnsigned?, String.ofList_eq]
      rw [if_pos hinf]
    · rw [NamesNaN] at hnan
      simp only [readUnsigned?, String.ofList_eq, hnan]
      rfl
    · exact readUnsigned?_eq hnumeral

/-- Neither an empty text nor `null` is a number. -/
theorem asciiLower_ne_of_readFloat? {cs : List Char} {x : Float} (h : readFloat? cs = some x) :
    Text.asciiLower cs ≠ [] ∧ Text.asciiLower cs ≠ "null".toList := by
  obtain ⟨negative, text, y, hsign, hy, -⟩ := readFloat?_eq_some_iff.1 h
  cases hsign with
  | plus | minus => exact ⟨nofun, fun heq ↦ absurd (List.cons.inj heq).1 (by decide)⟩
  | bare =>
    obtain ⟨hname | hname, -⟩ | ⟨hname, -⟩ | ⟨n, hnumeral, -⟩ := readUnsigned?_eq_some_iff.1 hy
    · rw [hname]; decide
    · rw [hname]; decide
    · rw [hname]; decide
    · refine ⟨fun heq ↦ ?_, hnumeral.asciiLower_ne rfl⟩
      obtain ⟨c, rest, rfl, -⟩ := hnumeral.starts
      cases heq

theorem isNaN_withSign (negative : Bool) (x : Float) : (withSign negative x).isNaN = x.isNaN := by
  cases negative
  · rfl
  · exact isNaN_neg x

theorem isFinite_withSign (negative : Bool) (x : Float) :
    (withSign negative x).isFinite = x.isFinite := by
  cases negative
  · rfl
  · exact isFinite_opposite x

/-- A numeral behind a sign is what its value with the sign rounds to. -/
theorem Numeral.rounds (n : Numeral) (negative : Bool) :
    Rounds (withSign negative n.value) (withSign negative n.toFloat) := by
  have hnonneg : 0 ≤ n.value := by unfold Numeral.value; positivity
  have hrounds : Rounds n.value n.toFloat := .above hnonneg n.isNearest_toFloat
  cases negative
  · exact hrounds
  · exact hrounds.opposite

end Decimal

namespace Table

open Decimal (Behind NamesInfinity NamesNaN NumeralText Rounds overflowBound withSign)

/-! ### The three kinds of cells -/

/-- The cell says nothing. -/
def SaysNothing (cell : List Char) : Prop :=
  (Text.asciiLower (Text.trim cell) = [] ∨ Text.asciiLower (Text.trim cell) = "null".toList) ∨
    ∃ negative text, Behind negative text (Text.trim cell) ∧ NamesNaN text

/-- The cell says infinity. -/
def SaysInfinity (cell : List Char) : Prop :=
  ∃ negative text, Behind negative text (Text.trim cell) ∧ NamesInfinity text

/-- The cell says the number. -/
def SaysNumber (cell : List Char) (q : ℚ) : Prop :=
  ∃ negative text n, Behind negative text (Text.trim cell) ∧ NumeralText n text ∧
    q = withSign negative n.value

/-- The cell says a number that a double can stand for. -/
def SaysAmount (cell : List Char) : Prop :=
  ∃ q, SaysNumber cell q ∧ |q| < overflowBound

/-- The cell says infinity, or a number that is too large for a double. -/
def SaysBeyond (cell : List Char) : Prop :=
  SaysInfinity cell ∨ ∃ q, SaysNumber cell q ∧ overflowBound ≤ |q|

/-- The amount that is read from a cell, if it can be read. -/
def amount? (cell : List Char) : Option Float :=
  (readCell? cell).map fun value ↦ value.getD Arithmetic.undefined

variable {cell : List Char} {x : Float}

theorem amount?_eq_some_iff : amount? cell = some x ↔
    ((Text.asciiLower (Text.trim cell) = [] ∨ Text.asciiLower (Text.trim cell) = "null".toList) ∧
      x = Arithmetic.undefined) ∨ Decimal.readFloat? (Text.trim cell) = some x := by
  have hexclusive (h : Decimal.readFloat? (Text.trim cell) = some x) :=
    Decimal.asciiLower_ne_of_readFloat? h
  simp only [amount?, readCell?, String.ofList_eq]
  by_cases hnan : Text.asciiLower (Text.trim cell) = "nan".toList
  · have hread : Decimal.readFloat? (Text.trim cell) = some Arithmetic.undefined :=
      Decimal.readFloat?_eq_some_iff.2 ⟨false, _, _, .bare,
        Decimal.readUnsigned?_eq_some_iff.2 (.inr (.inl ⟨hnan, rfl⟩)), rfl⟩
    rw [if_pos (.inr (.inl hnan)), hread, hnan]
    simp
  · split_ifs with hword
    · have hblank : Text.asciiLower (Text.trim cell) = [] ∨
          Text.asciiLower (Text.trim cell) = "null".toList := by
        rcases hword with hempty | h | hnull
        · exact .inl hempty
        · exact absurd h hnan
        · exact .inr hnull
      simp only [hblank, true_and, Option.map_some, Option.getD_none, Option.some.injEq]
      constructor
      · exact fun h ↦ .inl h.symm
      · rintro (rfl | hread)
        · rfl
        · exact absurd hblank (not_or.2 (hexclusive hread))
    · rw [Option.map_map]
      constructor
      · intro h
        obtain ⟨y, hread, rfl⟩ := Option.map_eq_some_iff.1 h
        exact .inr hread
      · rintro (⟨hblank, -⟩ | hread)
        · exact absurd hblank fun h ↦ hword (h.imp_right .inr)
        · rw [hread]
          rfl

theorem amount?_of_saysNothing (h : SaysNothing cell) :
    ∃ x, amount? cell = some x ∧ x.isNaN = true := by
  obtain hblank | ⟨negative, text, hsign, hname⟩ := h
  · exact ⟨_, amount?_eq_some_iff.2 (.inl ⟨hblank, rfl⟩), rfl⟩
  · have hread := Decimal.readUnsigned?_eq_some_iff.2 (.inr (.inl ⟨hname, rfl⟩))
    have hnan : (0.0 / 0.0 : Float).isNaN = true := rfl
    refine ⟨_, amount?_eq_some_iff.2 (.inr ?_), (Decimal.isNaN_withSign negative _).trans hnan⟩
    exact Decimal.readFloat?_eq_some_iff.2 ⟨negative, text, _, hsign, hread, rfl⟩

theorem amount?_of_saysInfinity (h : SaysInfinity cell) :
    ∃ x, amount? cell = some x ∧ x.isNaN = false ∧ x.isFinite = false := by
  obtain ⟨negative, text, hsign, hname⟩ := h
  have hread := Decimal.readUnsigned?_eq_some_iff.2 (.inl ⟨hname, rfl⟩)
  have hnumber : (1.0 / 0.0 : Float).isNaN = false := rfl
  have hinfinite : (1.0 / 0.0 : Float).isFinite = false := rfl
  refine ⟨_, amount?_eq_some_iff.2 (.inr ?_), (Decimal.isNaN_withSign negative _).trans hnumber,
    (Decimal.isFinite_withSign negative _).trans hinfinite⟩
  exact Decimal.readFloat?_eq_some_iff.2 ⟨negative, text, _, hsign, hread, rfl⟩

/-- A number is read as the double that it rounds to. -/
theorem amount?_of_saysNumber {q : ℚ} (h : SaysNumber cell q) :
    ∃ x, amount? cell = some x ∧ Rounds q x := by
  obtain ⟨negative, text, n, hsign, hnumeral, rfl⟩ := h
  refine ⟨_, amount?_eq_some_iff.2 (.inr ?_), n.rounds negative⟩
  exact Decimal.readFloat?_eq_some_iff.2
    ⟨negative, text, _, hsign, Decimal.readUnsigned?_eq hnumeral, rfl⟩

/-- **A cell that can be read says nothing, infinity or a number.** -/
theorem says_of_amount? (h : amount? cell = some x) :
    SaysNothing cell ∨ SaysInfinity cell ∨ ∃ q, SaysNumber cell q := by
  obtain ⟨hblank, -⟩ | hread := amount?_eq_some_iff.1 h
  · exact .inl (.inl hblank)
  · obtain ⟨negative, text, y, hsign, hy, -⟩ := Decimal.readFloat?_eq_some_iff.1 hread
    obtain ⟨hname, -⟩ | ⟨hname, -⟩ | ⟨n, hnumeral, -⟩ := Decimal.readUnsigned?_eq_some_iff.1 hy
    · exact .inr (.inl ⟨negative, text, hsign, hname⟩)
    · exact .inl (.inr ⟨negative, text, hsign, hname⟩)
    · exact .inr (.inr ⟨_, negative, text, n, hsign, hnumeral, rfl⟩)

/-! ### What is read from them -/

/-- The kind of a cell is seen from the amount. -/
theorem kinds_of_amount? (h : amount? cell = some x) :
    (SaysNothing cell → x.isNaN = true) ∧
      (SaysInfinity cell → x.isNaN = false ∧ x.isFinite = false) ∧
        ∀ q, SaysNumber cell q → Rounds q x := by
  refine ⟨fun hcell ↦ ?_, fun hcell ↦ ?_, fun q hcell ↦ ?_⟩
  · obtain ⟨y, hy, hkind⟩ := amount?_of_saysNothing hcell
    rwa [Option.some.inj (h.symm.trans hy)]
  · obtain ⟨y, hy, hkind⟩ := amount?_of_saysInfinity hcell
    rwa [Option.some.inj (h.symm.trans hy)]
  · obtain ⟨y, hy, hkind⟩ := amount?_of_saysNumber hcell
    rwa [Option.some.inj (h.symm.trans hy)]

theorem isNaN_iff_saysNothing (h : amount? cell = some x) : x.isNaN = true ↔ SaysNothing cell := by
  obtain ⟨hnothing, hinfinity, hnumber⟩ := kinds_of_amount? h
  refine ⟨fun hx ↦ ?_, hnothing⟩
  obtain hcell | hcell | ⟨q, hcell⟩ := says_of_amount? h
  · exact hcell
  · exact absurd (hx.symm.trans (hinfinity hcell).1) nofun
  · exact absurd (hx.symm.trans (hnumber q hcell).isNaN) nofun

theorem isFinite_iff_saysAmount (h : amount? cell = some x) :
    x.isFinite = true ↔ SaysAmount cell := by
  obtain ⟨hnothing, hinfinity, hnumber⟩ := kinds_of_amount? h
  constructor
  · intro hx
    obtain hcell | hcell | ⟨q, hcell⟩ := says_of_amount? h
    · exact absurd ((hnothing hcell).symm.trans (isNaN_of_isFinite hx)) nofun
    · exact absurd (hx.symm.trans (hinfinity hcell).2) nofun
    · exact ⟨q, hcell, (hnumber q hcell).isFinite_iff.1 hx⟩
  · rintro ⟨q, hcell, hq⟩
    exact (hnumber q hcell).isFinite_iff.2 hq

theorem isInfinite_iff_saysBeyond (h : amount? cell = some x) :
    x.isNaN = false ∧ x.isFinite = false ↔ SaysBeyond cell := by
  obtain ⟨hnothing, hinfinity, hnumber⟩ := kinds_of_amount? h
  constructor
  · rintro ⟨hnan, hfinite⟩
    obtain hcell | hcell | ⟨q, hcell⟩ := says_of_amount? h
    · exact absurd ((hnothing hcell).symm.trans hnan) nofun
    · exact .inl hcell
    · refine .inr ⟨q, hcell, not_lt.1 fun hq ↦ ?_⟩
      exact absurd (((hnumber q hcell).isFinite_iff.2 hq).symm.trans hfinite) nofun
  · rintro (hcell | ⟨q, hcell, hq⟩)
    · exact hinfinity hcell
    · refine ⟨(hnumber q hcell).isNaN, Bool.eq_false_iff.2 fun hx ↦ ?_⟩
      exact hq.not_gt ((hnumber q hcell).isFinite_iff.1 hx)

end Table

end BarReplay
