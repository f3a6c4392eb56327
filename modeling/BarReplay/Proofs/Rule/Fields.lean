import BarReplay.Strategy.Basic
import Mathlib.Data.List.Basic

/-!
# What a rule reads

The value of a rule depends on the fields it names and on nothing else. Two readings that agree on
these fields are the same to the rule, whatever each of them is taken from: a bar, a table of
values, a table in which a field may be empty, or a record by name.

`Expr.fields` lists the fields of one tree, and `Strategy.fields` those of all the rules of a
strategy. The first is complete because no node of a tree is passed over (`truth_eq_of_fields`); the
second because it leaves out no rule (`mem_fields_iff`).
-/

namespace BarReplay

variable {α : Type}

/-! ### The fields of a strategy -/

/-- The fields of a strategy are those of its rules. -/
theorem Strategy.mem_fields_iff {s : Strategy α} {f : Field} :
    f ∈ s.fields ↔ ∃ r ∈ s.entryRules ++ s.exitRules, f ∈ r.expr.fields := by
  simp only [Strategy.fields, List.mem_filter, Field.mem_all, true_and, Strategy.reads,
    List.any_eq_true, Expr.mem_fields]

/-! ### One rule -/

theorem Operand.value?_eq_of_reads {x : Operand α} {r r' : Reading α}
    (h : ∀ f, x.reads f = true → r f = r' f) : x.value? r = x.value? r' := by
  cases x with
  | field g => exact h g (decide_eq_true rfl)
  | constant c => rfl

variable [Arithmetic α]

/-- **A rule has the same truth under readings that agree on its fields.** -/
theorem Expr.truth_eq_of_fields {e : Expr α} {r r' : Reading α}
    (h : ∀ f ∈ e.fields, r f = r' f) : e.truth r = e.truth r' := by
  -- a field is read by a node exactly if it is read by one of its children
  simp only [mem_fields] at h
  induction e with
  | literal value => rfl
  | compare left sign right =>
    simp only [reads, Bool.or_eq_true] at h
    have hleft : left.value? r = left.value? r' :=
      Operand.value?_eq_of_reads fun f hf ↦ h f (.inl hf)
    have hright : right.value? r = right.value? r' :=
      Operand.value?_eq_of_reads fun f hf ↦ h f (.inr hf)
    rw [truth, truth, hleft, hright]
  | and left right ihl ihr | or left right ihl ihr =>
    simp only [reads, Bool.or_eq_true] at h
    rw [truth, truth, ihl fun f hf ↦ h f (.inl hf), ihr fun f hf ↦ h f (.inr hf)]
  | not inner ih => rw [truth, truth, ih h]

/-- Whether a rule holds is the same under readings that agree on its fields. -/
theorem Expr.holds_eq_of_fields {e : Expr α} {r r' : Reading α}
    (h : ∀ f ∈ e.fields, r f = r' f) : e.holds r = e.holds r' := by
  rw [holds, holds, truth_eq_of_fields h]

/-! ### A list of rules -/

/-- The first rule that holds is the same under readings that agree on the fields of all rules. -/
theorem Rule.firstHolding?_eq_of_fields {rules : List (Rule α)} {r r' : Reading α}
    (h : ∀ rule ∈ rules, ∀ f ∈ rule.expr.fields, r f = r' f) :
    firstHolding? rules r = firstHolding? rules r' := by
  induction rules with
  | nil => rfl
  | cons rule rest ih =>
    have hfirst : rule.expr.holds r = rule.expr.holds r' :=
      Expr.holds_eq_of_fields (h rule List.mem_cons_self)
    have hrest : firstHolding? rest r = firstHolding? rest r' :=
      ih fun q hq ↦ h q (List.mem_cons_of_mem rule hq)
    simp only [firstHolding?, List.findIdx?_cons, hfirst] at hrest ⊢
    rw [hrest]

end BarReplay
