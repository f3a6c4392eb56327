import BarReplay.Metrics
import BarReplay.Proofs.Decimal.Differences

/-!
# Maximum drawdown

The deepest fall of an equity curve is found in one pass that keeps the highest value so far and the
least fall so far. Here it is compared with what it is meant to be. `IsPeak` says which value is the
highest up to a point, and `IsFall` which fraction a point is below it. The deepest fall is the
least of these fractions, and zero if there is none (`deepestDrawdown_spec`).

Both things kept are picked from a list by going through it once, so one lemma on picking serves for
both (`foldl_pick`). It needs numbers, as the order of doubles is not total otherwise. A fall always
is one, even if its difference overflows: the curve is finite, and a peak of zero has no falls
(`IsFall.isNaN`).

No curve has a deepest fall above zero. Its first point has a fall of zero, unless it is zero
itself; then all peaks that have falls are positive. On a curve that starts above zero the deepest
fall is zero only if nothing falls, since a fall is never rounded to zero (`Decimal.fall_lt_zero`).
-/

open BarReplay.Decimal

namespace BarReplay

namespace Metrics

/-! ### Picking from a list -/

/-- **Picking the better of two at every step finds the best of all.** -/
theorem foldl_pick {β : Type} {pick : β → β → β} {N : β → Prop} {R : β → β → Prop}
    (hrefl : ∀ a, N a → R a a) (htrans : ∀ {a b c}, R a b → R b c → R a c)
    (hpick : ∀ a b, N a → N b → (pick a b = a ∨ pick a b = b) ∧ R (pick a b) a ∧ R (pick a b) b)
    {a : β} {xs : List β} (hnumbers : ∀ x ∈ a :: xs, N x) :
    xs.foldl pick a ∈ a :: xs ∧ ∀ x ∈ a :: xs, R (xs.foldl pick a) x := by
  induction xs generalizing a with
  | nil =>
    refine ⟨List.mem_singleton_self a, fun x hx ↦ ?_⟩
    rw [List.mem_singleton.1 hx]
    exact hrefl a (hnumbers a (List.mem_singleton_self a))
  | cons b rest ih =>
    have ha := hnumbers a List.mem_cons_self
    have hb := hnumbers b (List.mem_cons_of_mem a List.mem_cons_self)
    obtain ⟨hpicked, hleft, hright⟩ := hpick a b ha hb
    have hrest : ∀ x ∈ rest, N x := fun x hx ↦
      hnumbers x (List.mem_cons_of_mem a (List.mem_cons_of_mem b hx))
    have hnumber : N (pick a b) := by
      rcases hpicked with h | h <;> rwa [h]
    obtain ⟨hmem, hbest⟩ := ih (List.forall_mem_cons.2 ⟨hnumber, hrest⟩)
    have hfirst := hbest _ List.mem_cons_self
    refine ⟨?_, List.forall_mem_cons.2 ⟨htrans hfirst hleft, List.forall_mem_cons.2
      ⟨htrans hfirst hright, fun x hx ↦ hbest x (List.mem_cons_of_mem _ hx)⟩⟩⟩
    rcases List.mem_cons.1 hmem with h | h
    · rw [List.foldl_cons, h]
      rcases hpicked with h | h <;> simp [h]
    · exact List.mem_cons_of_mem a (List.mem_cons_of_mem b h)

/-- The higher of two values, of equal ones the first. -/
def higher (a b : Float) : Float :=
  if a < b then b else a

theorem foldl_higher {a : Float} {xs : List Float} (h : ∀ x ∈ a :: xs, x.isNaN = false) :
    xs.foldl higher a ∈ a :: xs ∧ ∀ x ∈ a :: xs, x ≤ xs.foldl higher a := by
  refine foldl_pick (N := fun x ↦ x.isNaN = false) (R := fun a b ↦ b ≤ a)
    (fun a ↦ float_le_refl) (fun h h' ↦ float_le_trans h' h) (fun a b ha hb ↦ ?_) h
  rw [higher]
  split_ifs with hlt
  · exact ⟨.inr rfl, float_le_of_lt ha hb hlt, float_le_refl hb⟩
  · exact ⟨.inl rfl, float_le_refl ha, float_le_of_not_lt ha hb hlt⟩

theorem foldl_lesser {a : Float} {xs : List Float} (h : ∀ x ∈ a :: xs, x.isNaN = false) :
    xs.foldl lesser a ∈ a :: xs ∧ ∀ x ∈ a :: xs, xs.foldl lesser a ≤ x := by
  refine foldl_pick (N := fun x ↦ x.isNaN = false) (R := (· ≤ ·))
    (fun a ↦ float_le_refl) float_le_trans (fun a b ha hb ↦ ?_) h
  have hself : (a == a) = true := (beq_iff_amount ha ha).2 rfl
  rw [lesser, if_pos hself]
  split_ifs with hle
  · exact ⟨.inr rfl, hle, float_le_refl hb⟩
  · exact ⟨.inl rfl, float_le_refl ha, (float_le_total ha hb).resolve_right hle⟩

/-! ### Peaks -/

/-- The highest of the values of a curve up to point `j`. -/
structure IsPeak (curve : List Float) (j : ℕ) (peak : Float) : Prop where
  mem : peak ∈ curve.take (j + 1)
  highest : ∀ value ∈ curve.take (j + 1), value ≤ peak

/-- The fall `d` of the value at point `j` from the peak up to there, as a fraction of the peak,
which is not zero. -/
def IsFall (curve : List Float) (j : ℕ) (d : Float) : Prop :=
  ∃ value peak, curve[j]? = some value ∧ IsPeak curve j peak ∧ (peak == 0) = false ∧
    d = (value - peak) / peak

/-- What is kept with a point is what has been picked up to it. -/
theorem getElem?_withPeaks (peak : Float) (curve : List Float) (j : ℕ) :
    (withPeaks peak curve)[j]? =
      curve[j]?.map fun value ↦ (value, (curve.take (j + 1)).foldl higher peak) := by
  induction curve generalizing peak j with
  | nil => rfl
  | cons value rest ih =>
    cases j with
    | zero => rfl
    | succ j => exact ih (higher peak value) j

/-- No finite amount is below the lowest one. -/
theorem higher_lowest {x : Float} (hx : x.isFinite = true) :
    higher (Arithmetic.lowest : Float) x = x := by
  have hlowest : (Arithmetic.lowest : Float).toModel.unpack = .infinity .negative := rfl
  have hnot : ¬ x ≤ (Arithmetic.lowest : Float) := by
    rw [← decide_eq_true_iff (p := x ≤ _), decide_le_eq, hlowest]
    rcases unpack_of_isFinite hx with ⟨s, hu⟩ | ⟨s, m, e, hm, hu⟩ <;>
      · rw [hu]
        exact Bool.false_ne_true
  rw [higher, if_pos]
  by_contra hlt
  exact hnot (float_le_of_not_lt rfl (isNaN_of_isFinite hx) hlt)

theorem mem_take_of_getElem? {curve : List Float} {i j : ℕ} {value : Float} (hij : i ≤ j)
    (h : curve[i]? = some value) : value ∈ curve.take (j + 1) :=
  List.mem_of_getElem? ((List.getElem?_take_of_lt (Nat.lt_succ_of_le hij)).trans h)

/-- There is one peak only, apart from the two zeros. -/
theorem IsPeak.unique {curve : List Float} {j : ℕ} {peak peak' : Float} (h : IsPeak curve j peak)
    (h' : IsPeak curve j peak') (hne : (peak == 0) = false) : peak = peak' :=
  eq_of_le_of_le (h'.highest peak h.mem) (h.highest peak' h'.mem) hne

section Finite

variable {curve : List Float} (hcurve : ∀ value ∈ curve, value.isFinite = true)

include hcurve

/-- **The highest value kept is the peak.** -/
theorem exists_peak {j : ℕ} {value : Float} (h : curve[j]? = some value) :
    ∃ peak, (withPeaks Arithmetic.lowest curve)[j]? = some (value, peak) ∧ IsPeak curve j peak := by
  refine ⟨(curve.take (j + 1)).foldl higher Arithmetic.lowest, ?_, ?_⟩
  · rw [getElem?_withPeaks, h]
    rfl
  · have hnumbers : ∀ x ∈ curve.take (j + 1), x.isNaN = false := fun x hx ↦
      isNaN_of_isFinite (hcurve x (List.mem_of_mem_take hx))
    cases curve with
    | nil => cases h
    | cons first rest =>
      rw [List.take_succ_cons] at hnumbers
      obtain ⟨hmem, hhighest⟩ := foldl_higher hnumbers
      -- the pass starts below all finite values, so the first value is picked in any case
      have hfirst : (List.take (j + 1) (first :: rest)).foldl higher Arithmetic.lowest =
          (rest.take j).foldl higher first := by
        rw [List.take_succ_cons, List.foldl_cons, higher_lowest (hcurve first List.mem_cons_self)]
      rw [hfirst]
      exact ⟨hmem, hhighest⟩

/-- **The falls that are compared are the falls of the curve.** -/
theorem mem_falls_iff {d : Float} :
    d ∈ (withPeaks Arithmetic.lowest curve).filterMap drawdown? ↔ ∃ j, IsFall curve j d := by
  rw [List.mem_filterMap]
  constructor
  · rintro ⟨⟨value, peak⟩, hmem, hd⟩
    obtain ⟨j, hj⟩ := List.mem_iff_getElem?.1 hmem
    have hvalue : curve[j]? = some value := by
      rw [getElem?_withPeaks, Option.map_eq_some_iff] at hj
      obtain ⟨_, hvalue, hpair⟩ := hj
      exact hvalue.trans (congrArg some (Prod.mk.inj hpair).1)
    obtain ⟨peak', hj', hpeak⟩ := exists_peak hcurve hvalue
    obtain rfl : peak = peak' := (Prod.mk.inj (Option.some.inj (hj.symm.trans hj'))).2
    rw [drawdown?] at hd
    split_ifs at hd with hzero
    exact ⟨j, value, peak, hvalue, hpeak, Bool.not_eq_true _ ▸ hzero, (Option.some.inj hd).symm⟩
  · rintro ⟨j, value, peak, hvalue, hpeak, hne, rfl⟩
    obtain ⟨peak', hj, hpeak'⟩ := exists_peak hcurve hvalue
    -- the peak is not zero, so it is the one that was kept
    obtain rfl := hpeak.unique hpeak' hne
    refine ⟨_, List.mem_of_getElem? hj, ?_⟩
    rw [drawdown?]
    exact if_neg (Bool.eq_false_iff.1 hne)

/-- **A fall is a number**, also if the difference overflows. -/
theorem IsFall.isNaN {j : ℕ} {d : Float} (h : IsFall curve j d) : d.isNaN = false := by
  obtain ⟨value, peak, hvalue, hpeak, hne, rfl⟩ := h
  have hfinite := hcurve peak (List.mem_of_mem_take hpeak.mem)
  have hvalue := hcurve value (List.mem_of_getElem? hvalue)
  exact isNaN_div (isNaN_sub (isNaN_of_isFinite hvalue) (isNaN_of_isFinite hfinite) (.inl hvalue))
    hfinite hne

/-- The deepest fall is the least of all falls, if there are any. -/
theorem deepestDrawdown_isLeast :
    ((∀ j d, ¬ IsFall curve j d) → deepestDrawdown curve = 0) ∧
      ∀ j d, IsFall curve j d →
        (∃ i, IsFall curve i (deepestDrawdown curve)) ∧ deepestDrawdown curve ≤ d := by
  have hfalls {d : Float} := mem_falls_iff (d := d) hcurve
  rw [deepestDrawdown]
  generalize (withPeaks Arithmetic.lowest curve).filterMap drawdown? = falls at hfalls
  cases falls with
  | nil => exact ⟨fun _ ↦ rfl, fun j d h ↦ absurd (hfalls.2 ⟨j, h⟩) List.not_mem_nil⟩
  | cons first rest =>
    have hnumbers : ∀ d ∈ first :: rest, d.isNaN = false := fun d hd ↦ by
      obtain ⟨j, hj⟩ := hfalls.1 hd
      exact hj.isNaN hcurve
    obtain ⟨hmem, hleast⟩ := foldl_lesser hnumbers
    obtain ⟨i, hi⟩ := hfalls.1 List.mem_cons_self
    exact ⟨fun hnone ↦ absurd hi (hnone i first),
      fun j d h ↦ ⟨hfalls.1 hmem, hleast d (hfalls.2 ⟨j, h⟩)⟩⟩

/-! ### Zero -/

/-- A curve that starts at zero or above has no peak below zero. -/
theorem IsPeak.nonneg {j : ℕ} {peak first : Float} (h : IsPeak curve j peak)
    (hfirst : curve[0]? = some first) (hstart : 0 ≤ first) : isNonNegative peak = true :=
  Bool.and_eq_true_iff.2 ⟨hcurve peak (List.mem_of_mem_take h.mem), decide_eq_true
    (float_le_trans hstart (h.highest first (mem_take_of_getElem? (Nat.zero_le j) hfirst)))⟩

/-- A curve that starts above zero has positive peaks only. -/
theorem IsPeak.pos {j : ℕ} {peak first : Float} (h : IsPeak curve j peak)
    (hfirst : curve[0]? = some first) (hstart : 0 < first) : isPositive peak = true :=
  Bool.and_eq_true_iff.2 ⟨hcurve peak (List.mem_of_mem_take h.mem), decide_eq_true
    (float_lt_of_lt_of_le rfl hstart
      (h.highest first (mem_take_of_getElem? (Nat.zero_le j) hfirst)))⟩

/-- **What is not below a positive peak has a fall of zero, and what is below it falls below
zero.** -/
theorem IsPeak.fall {j : ℕ} {value peak : Float} (h : IsPeak curve j peak)
    (hvalue : curve[j]? = some value) (hpos : isPositive peak = true) :
    peak ≤ value ∧ (value - peak) / peak = 0 ∨ value < peak ∧ (value - peak) / peak < 0 := by
  have hfinite := hcurve value (List.mem_of_getElem? hvalue)
  have hnumber := isNaN_of_isFinite hfinite
  have hpeak := (isUnsigned_of_isPositive hpos).number
  by_cases hlt : value < peak
  · exact .inr ⟨hlt, fall_lt_zero hpos hfinite hlt⟩
  · have hle := float_le_of_not_lt hnumber hpeak hlt
    have hge := h.highest value (mem_take_of_getElem? le_rfl hvalue)
    obtain rfl : peak = value := eq_of_le_of_le hle hge (ne_zero_of_isPositive hpos)
    rw [sub_self_of_isFinite hfinite, zero_div_of_isPositive hpos]
    exact .inl ⟨hle, rfl⟩

/-- The first value is the peak up to it. -/
theorem isPeak_first {first : Float} (hfirst : curve[0]? = some first) : IsPeak curve 0 first := by
  have hfinite := hcurve first (List.mem_of_getElem? hfirst)
  refine ⟨mem_take_of_getElem? le_rfl hfirst, fun value hvalue ↦ ?_⟩
  rw [List.take_one, List.head?_eq_getElem?, hfirst, Option.toList_some,
    List.mem_singleton] at hvalue
  rw [hvalue]
  exact float_le_refl (isNaN_of_isFinite hfinite)

/-- The first point of a curve has a fall of zero, unless it is zero. -/
theorem exists_fall_of_first {first : Float} (hfirst : curve[0]? = some first)
    (hne : (first == 0) = false) : ∃ d, IsFall curve 0 d ∧ d ≤ 0 := by
  have hfinite := hcurve first (List.mem_of_getElem? hfirst)
  have hnumber := isNaN_of_isFinite hfinite
  refine ⟨_, ⟨first, first, hfirst, isPeak_first hcurve hfirst, hne, rfl⟩, ?_⟩
  have hround := rounds_div (x := 0) (by decide +kernel) hfinite fun hzero ↦ by
    rw [amount_eq_zero_iff hnumber, hne] at hzero
    cases hzero
  rw [sub_self_of_isFinite hfinite]
  refine hround.le (rounds_amount rfl) ?_
  rw [amount_zero, zero_div]

/-- **The deepest fall is a number and not above zero**, not even on a curve below zero. -/
theorem deepestDrawdown_le_zero :
    (deepestDrawdown curve).isNaN = false ∧ deepestDrawdown curve ≤ 0 := by
  obtain ⟨hnone, hleast⟩ := deepestDrawdown_isLeast hcurve
  by_cases hfall : ∃ j d, IsFall curve j d
  · obtain ⟨j, d, h⟩ := hfall
    obtain ⟨⟨i, hi⟩, -⟩ := hleast j d h
    refine ⟨hi.isNaN hcurve, ?_⟩
    obtain ⟨first, hfirst⟩ : ∃ first, curve[0]? = some first := by
      obtain ⟨value, -, hvalue, -⟩ := h
      obtain ⟨hj, -⟩ := List.getElem?_eq_some_iff.1 hvalue
      exact ⟨_, List.getElem?_eq_getElem (Nat.zero_lt_of_lt hj)⟩
    cases hzero : first == 0 with
    | false =>
      obtain ⟨d, hd, hle⟩ := exists_fall_of_first hcurve hfirst hzero
      exact float_le_trans (hleast 0 d hd).2 hle
    | true =>
      -- no peak is below zero then
      obtain ⟨value, peak, hvalue, hpeak, hne, hr⟩ := hi
      have hstart := of_decide_eq_true (Bool.and_eq_true_iff.1 (isNonNegative_of_eq_zero hzero)).2
      have hnumber := (IsFall.isNaN hcurve ⟨value, peak, hvalue, hpeak, hne, rfl⟩)
      rw [hr]
      have hpos := isPositive_of_isNonNegative (hpeak.nonneg hcurve hfirst hstart) hne
      rcases hpeak.fall hcurve hvalue hpos with ⟨-, h⟩ | ⟨-, h⟩
      · rw [h]
        exact float_le_refl rfl
      · exact float_le_of_lt hnumber rfl h
  · rw [hnone fun j d h ↦ hfall ⟨j, d, h⟩]
    exact ⟨rfl, float_le_refl rfl⟩

section Start

variable {first : Float} (hfirst : curve[0]? = some first) (hstart : 0 < first)

include hfirst hstart

/-- A curve that starts above zero and has a deepest fall of zero never falls, as every point is at
its peak. -/
theorem rises_of_deepestDrawdown (hzero : (deepestDrawdown curve == 0) = true) :
    curve.Pairwise (· ≤ ·) := by
  obtain ⟨hr, -⟩ := deepestDrawdown_le_zero hcurve
  rw [beq_iff_amount hr rfl, amount_zero] at hzero
  rw [List.pairwise_iff_getElem]
  intro i j hi hj hij
  have hvalue : curve[j]? = some curve[j] := List.getElem?_eq_getElem hj
  obtain ⟨peak, -, hpeak⟩ := exists_peak hcurve hvalue
  have hpos := hpeak.pos hcurve hfirst hstart
  have hbelow : curve[i] ≤ peak :=
    hpeak.highest _ (mem_take_of_getElem? hij.le (List.getElem?_eq_getElem hi))
  rcases hpeak.fall hcurve hvalue hpos with ⟨hsame, -⟩ | ⟨-, hfall⟩
  · exact float_le_trans hbelow hsame
  · -- a fall below the peak is below zero, and the deepest fall is not above it
    have hd : IsFall curve j ((curve[j] - peak) / peak) :=
      ⟨_, peak, hvalue, hpeak, ne_zero_of_isPositive hpos, rfl⟩
    have hnumber := hd.isNaN hcurve
    have hdeep := ((deepestDrawdown_isLeast hcurve).2 j _ hd).2
    rw [le_iff_amount hr hnumber, hzero] at hdeep
    rw [lt_iff_amount hnumber rfl, amount_zero] at hfall
    exact absurd hfall hdeep.not_gt

/-- A curve that starts above zero and never falls has falls of zero only. -/
theorem deepestDrawdown_of_rises (hrises : curve.Pairwise (· ≤ ·)) : deepestDrawdown curve = 0 := by
  have hpositive := (isPeak_first hcurve hfirst).pos hcurve hfirst hstart
  obtain ⟨d, hd, -⟩ := exists_fall_of_first hcurve hfirst (ne_zero_of_isPositive hpositive)
  obtain ⟨⟨i, value, peak, hvalue, hpeak, -, hfall⟩, -⟩ := (deepestDrawdown_isLeast hcurve).2 0 d hd
  rw [hfall]
  rcases hpeak.fall hcurve hvalue (hpeak.pos hcurve hfirst hstart) with ⟨-, hnone⟩ | ⟨hlt, -⟩
  · exact hnone
  · -- the peak is the value itself or one before it, and not above it
    refine absurd hlt (float_not_lt ?_)
    have hnumber := isNaN_of_isFinite (hcurve value (List.mem_of_getElem? hvalue))
    obtain ⟨m, hm, rfl⟩ := List.mem_take_iff_getElem.1 hpeak.mem
    obtain ⟨hi, rfl⟩ := List.getElem?_eq_some_iff.1 hvalue
    rcases Nat.lt_or_eq_of_le (show m ≤ i by omega) with hmi | rfl
    · exact List.pairwise_iff_getElem.1 hrises m i _ hi hmi
    · exact float_le_refl hnumber

/-- **A curve that starts above zero has a deepest fall of zero exactly if it never falls.** -/
theorem deepestDrawdown_eq_zero_iff :
    (deepestDrawdown curve == 0) = true ↔ curve.Pairwise (· ≤ ·) := by
  refine ⟨rises_of_deepestDrawdown hcurve hfirst hstart, fun hrises ↦ ?_⟩
  rw [deepestDrawdown_of_rises hcurve hfirst hstart hrises]
  exact (beq_iff_amount rfl rfl).2 rfl

end Start

end Finite

/-- **Maximum drawdown is the least fall from a peak.** Of a finite curve it is zero if every peak
is zero and so has no falls; else it is one of the falls, and none is less. It is a number and not
above zero. If the curve starts above zero, the maximum drawdown is zero exactly if the curve never
falls. -/
theorem deepestDrawdown_spec {curve : List Float}
    (hcurve : ∀ value ∈ curve, value.isFinite = true) :
    ((∀ j d, ¬ IsFall curve j d) → deepestDrawdown curve = 0) ∧
    (∀ j d, IsFall curve j d →
      (∃ i, IsFall curve i (deepestDrawdown curve)) ∧ deepestDrawdown curve ≤ d) ∧
    ((deepestDrawdown curve).isNaN = false ∧ deepestDrawdown curve ≤ 0) ∧
    ∀ first, curve[0]? = some first → 0 < first →
      ((deepestDrawdown curve == 0) = true ↔ curve.Pairwise (· ≤ ·)) := by
  obtain ⟨hnone, hleast⟩ := deepestDrawdown_isLeast hcurve
  exact ⟨hnone, hleast, deepestDrawdown_le_zero hcurve,
    fun first hfirst ↦ deepestDrawdown_eq_zero_iff hcurve hfirst⟩

/-- From its peak of 110 the curve falls to 90, to 95 and then to 80, and no fall is deeper. -/
theorem sample_deepestDrawdown_spec :
    deepestDrawdown [100, 110, 90, 95, 80, 100] = ((80 - 110) / 110 : Float) ∧
      (∀ j d, IsFall [100, 110, 90, 95, 80, 100] j d →
        deepestDrawdown [100, 110, 90, 95, 80, 100] ≤ d) ∧
      (deepestDrawdown [100, 110, 90, 95, 80, 100] : Float).isNaN = false ∧
      ¬ ([100, 110, 90, 95, 80, 100] : List Float).Pairwise (· ≤ ·) := by
  have hcurve : ∀ value ∈ ([100, 110, 90, 95, 80, 100] : List Float), value.isFinite = true := by
    decide +kernel
  obtain ⟨-, hleast, ⟨hnumber, -⟩, hzero⟩ := deepestDrawdown_spec hcurve
  refine ⟨by decide +kernel, fun j d h ↦ (hleast j d h).2, hnumber, ?_⟩
  rw [← hzero 100 rfl (by decide +kernel)]
  decide +kernel

end Metrics

end BarReplay
