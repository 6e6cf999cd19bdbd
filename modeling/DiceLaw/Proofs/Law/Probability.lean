import DiceLaw.Proofs.Law.Distribution
import Mathlib.Algebra.Order.BigOperators.Group.Finset

/-!
# Tables of probabilities

A table that is given by hand may have outcomes of weight zero. What holds of the sums of its
weights only takes weights that are not negative, and sum to one.

## Main definitions

* `Table.IsProbability`: weights that are not negative and sum to one

## Main results

* `Table.IsProbability.expectation_const`: what is always the same is expected
* `Table.IsProbability.mass_mono`, `Table.IsProbability.mass_le_one`: the weight of more outcomes
-/

namespace DiceLaw

namespace Table

variable {t : Table} {v : Int} {p q : Int → Prop} [DecidablePred p] [DecidablePred q]

/-- The weights of a table are probabilities if they are not negative and sum to one. -/
structure IsProbability (t : Table) : Prop where
  nonneg : ∀ e ∈ t.entries, 0 ≤ e.2
  total : t.expectation (fun _ => 1) = 1

theorem IsDistribution.isProbability (h : t.IsDistribution) : t.IsProbability where
  nonneg := fun e he => (h.positive e he).le
  total := h.total

theorem isProbability_of_sum (hnonneg : ∀ e ∈ t.entries, 0 ≤ e.2)
    (hsum : (t.entries.map (·.2)).sum = 1) : t.IsProbability where
  nonneg := hnonneg
  total := (expectation_one t).trans hsum

/-- What has a weight is an outcome. -/
theorem mem_outcomes_of_weight_pos (hv : 0 < t.weight v) : v ∈ t.outcomes := by
  by_contra hnot
  exact hv.ne' (weight_of_notMem hnot)

namespace IsProbability

variable (h : t.IsProbability)

include h

theorem entries_ne_nil : t.entries ≠ [] := by
  intro hempty
  have htotal := h.total
  rw [expectation, hempty] at htotal
  exact zero_ne_one htotal

theorem weight_nonneg (v : Int) : 0 ≤ t.weight v := by
  by_cases hv : v ∈ t.outcomes
  · obtain ⟨w, hw⟩ := mem_outcomes.1 hv
    rw [weight_of_mem hw]
    exact h.nonneg _ hw
  · rw [weight_of_notMem hv]

theorem expectation_const (c : Rat) : (t.expectation fun _ => c) = c := by
  have hone := t.expectation_const_mul c fun _ => 1
  rwa [h.total, mul_one] at hone

/-- What is never negative has an expectation that is not negative. -/
theorem expectation_nonneg {f : Int → Rat} (hf : ∀ v, 0 ≤ f v) : 0 ≤ t.expectation f := by
  rw [expectation_eq_sum]
  exact Finset.sum_nonneg fun v _ => mul_nonneg (hf v) (h.weight_nonneg v)

/-! ## The weight of outcomes with a property -/

theorem mass_nonneg (p : Int → Prop) [DecidablePred p] : 0 ≤ t.mass p :=
  Finset.sum_nonneg fun v _ => h.weight_nonneg v

theorem mass_mono (hpq : ∀ v, p v → q v) : t.mass p ≤ t.mass q :=
  Finset.sum_le_sum_of_subset_of_nonneg (Finset.monotone_filter_right _ fun v _ => hpq v)
    fun v _ _ => h.weight_nonneg v

theorem mass_le_one (p : Int → Prop) [DecidablePred p] : t.mass p ≤ 1 := by
  rw [← h.total, ← t.mass_add_mass_not p]
  exact le_add_of_nonneg_right (h.mass_nonneg _)

end IsProbability

end Table

end DiceLaw
