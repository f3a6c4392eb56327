import BarReplay.Json.Printer
import BarReplay.Proofs.Decimal.Positional
import BarReplay.Proofs.Json.Following

/-!
# Numbers as they are written

What is written for a count or for a finite double is a number of the grammar of JSON, which is
stricter than that of rules: no zero stands before another digit, and digits stand on both sides of
a point. So it is scanned as a whole wherever a value may end (`IsNumber`).

A leading zero could only come from a decimal that is zero with an exponent, and the shortest
decimal of a double is no such thing: of a double that is not zero it is not zero, because it reads
back (`shortest_reduced`).
-/

namespace BarReplay

open Decimal

namespace Json

/-! ### Where a value may end -/

/-- A value may end before this text: it is over, or goes on with a gap, a comma or a closing
bracket. -/
def Ends (rest : List Char) : Prop :=
  ∀ c ∈ rest.head?, isGap c = true ∨ c = ',' ∨ c = ']' ∨ c = '\x7d'

theorem ends_nil : Ends [] :=
  fun _ h ↦ by cases h

theorem ends_cons {c : Char} (h : isGap c = true ∨ c = ',' ∨ c = ']' ∨ c = '\x7d')
    (rest : List Char) : Ends (c :: rest) := by
  intro d hd
  obtain rfl : c = d := Option.some.inj hd
  exact h

/-- A number does not go on where a value may end. -/
theorem Ends.head_ne {c : Char} {rest : List Char} (h : Ends (c :: rest)) :
    c.isDigit = false ∧ c ≠ '.' ∧ ¬ (c = 'e' ∨ c = 'E') := by
  have hc : c = ' ' ∨ c = '\n' ∨ c = '\r' ∨ c = '\t' ∨ c = ',' ∨ c = ']' ∨ c = '\x7d' := by
    simpa [isGap, or_assoc] using h c rfl
  rcases hc with rfl | rfl | rfl | rfl | rfl | rfl | rfl <;> decide

theorem Ends.noDigit {rest : List Char} (h : Ends rest) : NoDigit rest := by
  cases rest with
  | nil => rfl
  | cons c rest => exact h.head_ne.1

/-! ### The parts of a number -/

/-- At least one digit, and no zero before another digit. -/
def IsWhole (ds : List Char) : Prop :=
  AllDigits ds ∧ ds ≠ [] ∧ ∀ d tail, ds ≠ '0' :: d :: tail

/-- Nothing, or a point and at least one digit. -/
inductive IsPoint : List Char → Prop where
  | absent : IsPoint []
  | digits {ds : List Char} (digits : AllDigits ds) (some : ds ≠ []) : IsPoint ('.' :: ds)

/-- Nothing, or an exponent with its sign. -/
inductive IsPower : List Char → Prop where
  | absent : IsPower []
  | signed {c : Char} {ds : List Char} (sign : c = '+' ∨ c = '-') (digits : AllDigits ds)
      (some : ds ≠ []) : IsPower ('e' :: c :: ds)

theorem someDigits?_of_digits {ds rest : List Char} (hdigits : AllDigits ds) (hsome : ds ≠ [])
    (hrest : NoDigit rest) : someDigits? (ds ++ rest) = some (ds, rest) :=
  someDigits?_eq_some_iff.2 ⟨scanDigits_append hdigits hrest, hsome⟩

theorem IsPower.scan {power rest : List Char} (h : IsPower power) (hrest : Ends rest) :
    scanPower? (power ++ rest) = some (power, rest) := by
  cases h with
  | absent =>
    cases rest with
    | nil => rfl
    | cons c rest => exact scanPower?_other hrest.head_ne.2.2 rest
  | signed sign digits hsome =>
    rw [List.cons_append, List.cons_append, scanPower?_signed (.inl rfl) sign,
      someDigits?_of_digits digits hsome hrest.noDigit, Option.map_some]

/-- An exponent does not start with a digit or a point. -/
theorem IsPower.head_ne {power rest : List Char} (h : IsPower power) (hrest : Ends rest) :
    NoDigit (power ++ rest) ∧ ∀ c ∈ (power ++ rest).head?, c ≠ '.' := by
  cases h with
  | absent =>
    refine ⟨hrest.noDigit, fun c hc ↦ ?_⟩
    cases rest with
    | nil => cases hc
    | cons d rest =>
      obtain rfl : d = c := Option.some.inj hc
      exact hrest.head_ne.2.1
  | signed => exact ⟨rfl, by simp⟩

theorem IsPoint.scan {point after : List Char} (h : IsPoint point) (hdigit : NoDigit after)
    (hpoint : ∀ c ∈ after.head?, c ≠ '.') : scanPoint? (point ++ after) = some (point, after) := by
  cases h with
  | absent =>
    cases after with
    | nil => rfl
    | cons c after => exact scanPoint?_other (hpoint c rfl) after
  | digits digits hsome =>
    rw [List.cons_append, scanPoint?_point, someDigits?_of_digits digits hsome hdigit,
      Option.map_some]

/-- A fraction does not start with a digit. -/
theorem IsPoint.noDigit {point after : List Char} (h : IsPoint point) (hdigit : NoDigit after) :
    NoDigit (point ++ after) := by
  cases h with
  | absent => exact hdigit
  | digits => rfl

/-- The text of a number without a sign. -/
inductive IsMagnitude : List Char → Prop where
  | parts {whole point power : List Char} (first : IsWhole whole) (second : IsPoint point)
      (third : IsPower power) : IsMagnitude (whole ++ point ++ power)

/-- A number without a sign is scanned part by part. -/
theorem IsMagnitude.scan {text rest : List Char} (h : IsMagnitude text) (hrest : Ends rest) :
    scanMagnitude? (text ++ rest) = some (text, rest) := by
  obtain ⟨hwhole, hpoint, hpower⟩ := h
  rename_i whole point power
  obtain ⟨hdigit, hhead⟩ := hpower.head_ne hrest
  have hfirst : scanWhole? (whole ++ (point ++ (power ++ rest))) =
      some (whole, point ++ (power ++ rest)) :=
    scanWhole?_eq_some_iff.2
      ⟨someDigits?_of_digits hwhole.1 hwhole.2.1 (hpoint.noDigit hdigit), hwhole.2.2⟩
  rw [List.append_assoc, List.append_assoc, scanMagnitude?]
  simp only [Option.bind_eq_bind, hfirst, hpoint.scan hdigit hhead, hpower.scan hrest,
    Option.bind_some, List.append_assoc]

theorem IsMagnitude.exists_head {text : List Char} (h : IsMagnitude text) :
    ∃ c tail, text = c :: tail ∧ c.isDigit = true := by
  obtain ⟨hwhole, -, -⟩ := h
  obtain ⟨c, tail, rfl⟩ := List.exists_cons_of_ne_nil hwhole.2.1
  exact ⟨c, _, rfl, hwhole.1 c List.mem_cons_self⟩

/-- The text is a number wherever a value may end. -/
def IsNumber (text : List Char) : Prop :=
  ∀ rest, Ends rest → scanNumber? (text ++ rest) = some (text, rest)

theorem IsMagnitude.isNumber {text : List Char} (h : IsMagnitude text) : IsNumber text := by
  intro rest hrest
  obtain ⟨c, tail, rfl, hdigit⟩ := h.exists_head
  have hc : c ≠ '-' := by
    rintro rfl
    exact absurd hdigit (by decide)
  exact (scanNumber?_unsigned hc _).trans (h.scan hrest)

theorem IsMagnitude.isNumber_negative {text : List Char} (h : IsMagnitude text) :
    IsNumber ('-' :: text) := by
  intro rest hrest
  rw [List.cons_append, scanNumber?_negative, h.scan hrest]
  rfl

end Json

/-! ### Digits of numbers -/

namespace Decimal

/-- The first digit of a number that is not zero is not zero. -/
theorem head_digitsOf_ne_zero {n : ℕ} (hn : n ≠ 0) : (digitsOf n).head? ≠ some '0' := by
  induction n using Nat.strongRecOn with
  | ind n ih =>
    rw [digitsOf]
    rcases Nat.lt_or_ge n 10 with hsmall | hlarge
    · have hdigit : ∀ d : Fin 10, d.val ≠ 0 → d.val.digitChar ≠ '0' := by decide
      rw [Nat.toDigits_of_lt_base hsmall]
      exact fun h ↦ hdigit ⟨n, hsmall⟩ hn (Option.some.inj h)
    · have hfirst := ih (n / 10) (by omega) (by omega)
      obtain ⟨c, tail, hdigits⟩ := List.exists_cons_of_ne_nil
        (Nat.toDigits_ne_nil (n := n / 10) (b := 10))
      rw [digitsOf, hdigits] at hfirst
      rw [Nat.toDigits_of_base_le (by decide) hlarge, hdigits]
      exact hfirst

/-- A decimal that is zero is written without an exponent. -/
def Digits.IsReduced (d : Digits) : Prop :=
  d.coefficient = 0 → d.exponent = 0

/-- The shortest decimal of a double that is not zero is not zero. -/
theorem shortest_reduced (tie : Tie) {x : Float} (hx : x.isFinite = true) :
    (shortest tie x).IsReduced := by
  intro hzero
  have hbits := isFinite_iff.1 hx
  have hnearest := isNearestRung_shortest tie hbits
  rw [Digits.value, hzero, Nat.cast_zero, zero_mul] at hnearest
  have hself := isNearestRung_rung (Nat.zero_le topRung)
  rw [rung_zero] at hself
  have hsignificand : (Binary.ofFloat x).significand = 0 := by
    rw [ofFloat_eq_ofRung, hnearest.eq hself]
    rfl
  rw [shortest]
  simp only [if_pos hsignificand]

end Decimal

namespace Json

theorem isWhole_digitsOf (n : ℕ) : IsWhole (digitsOf n) := by
  refine ⟨allDigits_digitsOf n, Nat.toDigits_ne_nil, fun d tail h ↦ ?_⟩
  by_cases hn : n = 0
  · subst hn
    cases h
  · refine head_digitsOf_ne_zero hn ?_
    rw [h]
    rfl

/-- Digits that start like a number that is not zero are a whole part. -/
theorem isWhole_of_head {n : ℕ} (hn : n ≠ 0) {ds : List Char} (hdigits : AllDigits ds)
    (hhead : ds.head? = (digitsOf n).head?) : IsWhole ds := by
  have hfirst := head_digitsOf_ne_zero hn
  rw [← hhead] at hfirst
  refine ⟨hdigits, ?_, fun d tail h ↦ hfirst (h ▸ rfl)⟩
  rintro rfl
  obtain ⟨c, tail, hcons⟩ := List.exists_cons_of_ne_nil (Nat.toDigits_ne_nil (n := n) (b := 10))
  rw [digitsOf, hcons] at hhead
  cases hhead

/-- Positional text with its point is a number. -/
theorem isMagnitude_positionalText {d : Digits} (hd : d.IsReduced) :
    IsMagnitude (positionalText true d) := by
  have hdigits := allDigits_digitsOf d.coefficient
  have hsome : digitsOf d.coefficient ≠ [] := Nat.toDigits_ne_nil
  rw [positionalText]
  by_cases hwhole : 0 ≤ d.exponent
  · rw [if_pos hwhole]
    have hlead : IsWhole (digitsOf d.coefficient ++ zeros d.exponent.toNat) := by
      by_cases hzero : d.coefficient = 0
      · rw [hd hzero, hzero]
        exact isWhole_digitsOf 0
      · exact isWhole_of_head hzero (hdigits.append (allDigits_zeros _))
          (List.head?_append_of_ne_nil _ hsome)
    have hpoint : IsPoint ['.', '0'] := .digits (by simp [AllDigits]) (List.cons_ne_nil _ _)
    simpa using IsMagnitude.parts hlead hpoint .absent
  · rw [if_neg hwhole]
    have hnonzero : d.coefficient ≠ 0 := fun hzero ↦ hwhole (hd hzero).ge
    by_cases hinside : 0 < (digitsOf d.coefficient).length + d.exponent
    · rw [if_pos hinside]
      generalize hk : ((digitsOf d.coefficient).length + d.exponent).toNat = k
      have hlead : IsWhole ((digitsOf d.coefficient).take k) := by
        refine isWhole_of_head hnonzero (fun c hc ↦ hdigits c (List.mem_of_mem_take hc)) ?_
        rw [List.head?_take, if_neg (by omega)]
      have hpoint : IsPoint ('.' :: (digitsOf d.coefficient).drop k) := by
        refine .digits (fun c hc ↦ hdigits c (List.mem_of_mem_drop hc)) ?_
        rw [ne_eq, List.drop_eq_nil_iff]
        omega
      simpa using IsMagnitude.parts hlead hpoint .absent
    · rw [if_neg hinside]
      have hpoint : IsPoint ('.' ::
          (zeros (-((digitsOf d.coefficient).length + d.exponent)).toNat ++
            digitsOf d.coefficient)) :=
        .digits ((allDigits_zeros _).append hdigits) (List.append_ne_nil_of_right_ne_nil _ hsome)
      have h := IsMagnitude.parts (isWhole_digitsOf 0) hpoint .absent
      rwa [List.append_nil] at h

/-- Text with an exponent is a number. -/
theorem isMagnitude_exponentText (d : Digits) : IsMagnitude (exponentText d) := by
  have hdigits := allDigits_digitsOf d.coefficient
  rw [exponentText]
  generalize ((digitsOf d.coefficient).length : ℤ) + d.exponent - 1 = lead
  have hpower : IsPower ('e' :: (if lead < 0 then '-' else '+') :: digitsOf lead.natAbs) := by
    refine .signed ?_ (allDigits_digitsOf _) Nat.toDigits_ne_nil
    split_ifs
    · exact .inr rfl
    · exact .inl rfl
  obtain ⟨c, tail, hcons⟩ := List.exists_cons_of_ne_nil
    (Nat.toDigits_ne_nil (n := d.coefficient) (b := 10))
  rw [digitsOf, hcons] at hdigits ⊢
  have hlead : IsWhole [c] :=
    ⟨fun x hx ↦ hdigits x (by simp_all), List.cons_ne_nil _ _, by simp⟩
  cases tail with
  | nil => exact IsMagnitude.parts hlead .absent hpower
  | cons x tail =>
    have hpoint : IsPoint ('.' :: x :: tail) :=
      .digits (fun y hy ↦ hdigits y (List.mem_cons_of_mem c hy)) (List.cons_ne_nil _ _)
    exact IsMagnitude.parts hlead hpoint hpower

theorem isMagnitude_magnitude {d : Digits} (hd : d.IsReduced) :
    IsMagnitude (Layout.report.magnitude d) := by
  rw [Layout.magnitude]
  dsimp only [Layout.report]
  split_ifs
  · exact isMagnitude_positionalText hd
  · exact isMagnitude_exponentText d

/-- **What a report writes for a finite double is a number.** -/
theorem isNumber_report {x : Float} (hx : x.isFinite = true) :
    IsNumber (Layout.report.finite x) := by
  have h := isMagnitude_magnitude (shortest_reduced Layout.report.tie hx)
  rw [Layout.finite]
  split_ifs
  · exact h.isNumber_negative
  · exact h.isNumber

/-- What is written for a count is a number. -/
theorem isNumber_digitsOf (n : ℕ) : IsNumber (digitsOf n) := by
  simpa using (IsMagnitude.parts (isWhole_digitsOf n) .absent .absent).isNumber

end Json

end BarReplay
