import BarReplay.Table.Bars
import Mathlib.Data.List.Nodup

/-!
# The order of dates

Dates are compared by their ordinals. On days that exist the ordinal decides the day, so the order
is total: of two dates, neither of which is after the other, there is only one. A table is put into
this order by a sort that is stable, and `InDateOrder` says what this means without saying how it is
done: no bar is lost or added, no date is before the one ahead of it, and the bars of one date come
as they stood. If the dates are distinct, nothing is left open (`InDateOrder.eq_of_perm`).
-/

namespace BarReplay

namespace Date

theorem daysInMonth_le (year : Int) (month : Nat) : daysInMonth year month ≤ 31 := by
  unfold daysInMonth
  repeat' split
  all_goals omega

/-- Only the months of the calendar have days. -/
theorem month_of_daysInMonth (year : Int) (month : Nat) (h : 0 < daysInMonth year month) :
    1 ≤ month ∧ month ≤ 12 := by
  unfold daysInMonth at h
  split at h <;> omega

/-- The ordinals of different days are different. -/
theorem ordinal_injective {a b : Date} (h : a.ordinal = b.ordinal) : a = b := by
  obtain ⟨year, month, day, _, _, hday, hlast⟩ := a
  obtain ⟨year', month', day', _, _, hday', hlast'⟩ := b
  have hmonth := month_of_daysInMonth year month (by omega)
  have hmonth' := month_of_daysInMonth year' month' (by omega)
  have hle := daysInMonth_le year month
  have hle' := daysInMonth_le year' month'
  simp only [ordinal] at h
  obtain rfl : year = year' := by omega
  obtain rfl : month = month' := by omega
  obtain rfl : day = day' := by omega
  rfl

theorem le_antisymm {a b : Date} (h : a ≤ b) (h' : b ≤ a) : a = b :=
  ordinal_injective (Int.le_antisymm h h')

theorem le_trans {a b c : Date} (h : a ≤ b) (h' : b ≤ c) : a ≤ c :=
  Int.le_trans h h'

theorem le_total (a b : Date) : a ≤ b ∨ b ≤ a :=
  Int.le_total _ _

theorem le_rfl {a : Date} : a ≤ a :=
  Int.le_refl _

/-- Between dates in order there is one that is not after the other only if they are the same. -/
theorem not_lt_iff_eq {a b : Date} (h : a ≤ b) : ¬ a < b ↔ a = b := by
  constructor
  · exact fun hlt ↦ le_antisymm h (Int.not_lt.1 hlt)
  · rintro rfl
    exact Int.lt_irrefl _

end Date

namespace Table

/-- The second list has the bars of the first in the order of their dates, those of one date in the
order of the first. -/
structure InDateOrder (bars ordered : List (Bar Float)) : Prop where
  perm : ordered.Perm bars
  sorted : ordered.Pairwise fun a b ↦ a.date ≤ b.date
  stable : ∀ date, ordered.filter (fun b ↦ b.date = date) = bars.filter fun b ↦ b.date = date

/-- Bars are put into the order of their dates. -/
theorem inDateOrder_byDate (bars : List (Bar Float)) : InDateOrder bars (byDate bars) := by
  have htrans (a b c : Bar Float) : decide (a.date ≤ b.date) = true →
      decide (b.date ≤ c.date) = true → decide (a.date ≤ c.date) = true := by
    simpa only [decide_eq_true_eq] using Date.le_trans
  have htotal (a b : Bar Float) :
      (decide (a.date ≤ b.date) || decide (b.date ≤ a.date)) = true := by
    simpa only [Bool.or_eq_true, decide_eq_true_eq] using Date.le_total a.date b.date
  have hperm : (byDate bars).Perm bars := List.mergeSort_perm _ _
  refine ⟨hperm, ?_, fun date ↦ Eq.symm ?_⟩
  · exact (List.pairwise_mergeSort htrans htotal bars).imp of_decide_eq_true
  · -- bars of one date are in order as they stand, so a stable sort keeps them as they stand
    have hsame : (bars.filter fun b ↦ b.date = date).Pairwise
        fun a b ↦ decide (a.date ≤ b.date) = true := by
      refine List.pairwise_of_forall_mem_list fun a ha b hb ↦ ?_
      simp only [List.mem_filter, decide_eq_true_eq] at ha hb ⊢
      rw [ha.2, hb.2]
      exact Date.le_rfl
    have hsub : (bars.filter fun b ↦ b.date = date).Sublist (byDate bars) :=
      List.sublist_mergeSort htrans htotal hsame List.filter_sublist
    have hfilter := hsub.filter fun b ↦ decide (b.date = date)
    rw [List.filter_filter] at hfilter
    simp only [Bool.and_self] at hfilter
    exact hfilter.eq_of_length (hperm.filter _).length_eq.symm

/-- Bars that are in the order of their dates stay as they are. -/
theorem byDate_eq_self {bars : List (Bar Float)}
    (h : bars.Pairwise fun a b ↦ a.date ≤ b.date) : byDate bars = bars :=
  List.mergeSort_of_pairwise (h.imp decide_eq_true)

/-- Bars with distinct dates have one order. -/
theorem InDateOrder.eq_of_perm {bars bars' ordered ordered' : List (Bar Float)}
    (h : InDateOrder bars ordered) (h' : InDateOrder bars' ordered') (hperm : bars.Perm bars')
    (hdates : (ordered.map Bar.date).Nodup) : ordered = ordered' := by
  have hall : ordered.Perm ordered' := h.perm.trans (hperm.trans h'.perm.symm)
  refine hall.eq_of_pairwise (fun a b ha hb hab hba ↦ ?_) h.sorted h'.sorted
  exact List.inj_on_of_nodup_map hdates ha (hall.mem_iff.2 hb) (Date.le_antisymm hab hba)

end Table

end BarReplay
