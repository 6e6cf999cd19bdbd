import DiceLaw.Table.Lemmas
import Mathlib.Algebra.BigOperators.Ring.Finset
import Mathlib.Algebra.Ring.Rat
import Mathlib.Tactic.Ring

/-!
# Weights and expectations

The expectation of a function is a sum over the outcomes, and the weight of a number is the
expectation of the function that is one at this number. A table is known by its outcomes together
with its weights, and so it is known by its outcomes together with its expectations.

## Main definitions

* `Table.mass`: the weight of all outcomes with a property

## Main results

* `Table.expectation_eq_sum`: the expectation as a sum over the outcomes
* `Table.weight_eq_expectation`, `Table.weight_eq_sum_cases`: the weight of a number as an
  expectation, and as a sum over the cases that come out there
* `Table.mass_eq_sum_filter`, `Table.mass_le_eq`: the weight of outcomes with a property
* `Table.eq_of_entries_perm`, `Table.ext_weight`, `Table.ext_expectation`: what a table is known by
-/

namespace DiceLaw

namespace Table

variable {t a b : Table} {v : Int} {w : Rat}

/-! ## Entries -/

theorem mem_outcomes : v ∈ t.outcomes ↔ ∃ w, (v, w) ∈ t.entries := by
  simp [outcomes]

theorem ascending_outcomes (t : Table) : t.outcomes.Pairwise (· < ·) :=
  List.pairwise_map.2 t.ascending

theorem nodup_outcomes (t : Table) : t.outcomes.Nodup := t.ascending_outcomes.imp Int.ne_of_lt

theorem weightIn_of_mem {entries : List Entry} (h : Ascending entries)
    (hmem : (v, w) ∈ entries) : weightIn v entries = w := by
  induction entries with
  | nil => cases hmem
  | cons e rest ih =>
    obtain ⟨hhead, hrest⟩ := List.pairwise_cons.1 h
    rcases List.mem_cons.1 hmem with rfl | hmem
    · simp [weightIn]
    · rw [weightIn, if_neg (Int.ne_of_lt (hhead _ hmem)), ih hrest hmem]

theorem weightIn_of_notMem {entries : List Entry} (h : v ∉ entries.map (·.1)) :
    weightIn v entries = 0 := by
  induction entries with
  | nil => rfl
  | cons e rest ih =>
    rw [List.map_cons, List.mem_cons, not_or] at h
    rw [weightIn, if_neg (Ne.symm h.1), ih h.2]

theorem weight_of_mem (h : (v, w) ∈ t.entries) : t.weight v = w := weightIn_of_mem t.ascending h

theorem weight_of_notMem (h : v ∉ t.outcomes) : t.weight v = 0 := weightIn_of_notMem h

/-- The entries are the outcomes with their weights. -/
theorem mem_entries_iff : (v, w) ∈ t.entries ↔ v ∈ t.outcomes ∧ t.weight v = w := by
  constructor
  · intro h
    exact ⟨mem_outcomes.2 ⟨w, h⟩, weight_of_mem h⟩
  · rintro ⟨hv, rfl⟩
    obtain ⟨x, hx⟩ := mem_outcomes.1 hv
    rwa [weight_of_mem hx]

/-- The first entry is that of the least outcome. -/
theorem exists_least (h : t.outcomes ≠ []) :
    ∃ e, t.entries.head? = some e ∧ e.1 ∈ t.outcomes ∧ ∀ v ∈ t.outcomes, e.1 ≤ v := by
  obtain ⟨entries, hascending⟩ := t
  cases entries with
  | nil => exact absurd rfl h
  | cons e rest =>
    obtain ⟨hhead, -⟩ := List.pairwise_cons.1 hascending
    refine ⟨e, rfl, List.mem_cons_self, List.forall_mem_cons.2 ⟨Int.le_refl _, ?_⟩⟩
    exact List.forall_mem_map.2 fun d hd => Int.le_of_lt (hhead d hd)

/-- The last entry is that of the greatest outcome. -/
theorem exists_greatest (h : t.outcomes ≠ []) :
    ∃ e, t.entries.getLast? = some e ∧ e.1 ∈ t.outcomes ∧ ∀ v ∈ t.outcomes, v ≤ e.1 := by
  obtain ⟨entries, hascending⟩ := t
  rcases List.eq_nil_or_concat' entries with rfl | ⟨before, e, rfl⟩
  · exact absurd rfl h
  · obtain ⟨-, -, hlast⟩ := List.pairwise_append.1 hascending
    refine ⟨e, List.getLast?_concat, List.mem_map_of_mem (by simp), ?_⟩
    refine List.forall_mem_map.2 fun d hd => ?_
    rcases List.mem_append.1 hd with hd | hd
    · exact Int.le_of_lt (hlast d hd e List.mem_cons_self)
    · rw [List.mem_singleton.1 hd]

/-- The same entries in ascending order are the same list. -/
theorem eq_of_entries_perm (h : a.entries.Perm b.entries) : a = b :=
  ext_entries (h.eq_of_pairwise (fun _ _ _ _ h h' => absurd h' (Int.lt_asymm h))
    a.ascending b.ascending)

/-- Tables with the same outcomes and the same weights are equal. -/
theorem ext_weight (houtcomes : ∀ v, v ∈ a.outcomes ↔ v ∈ b.outcomes)
    (hweight : ∀ v, a.weight v = b.weight v) : a = b := by
  have hmem : ∀ e : Entry, e ∈ a.entries ↔ e ∈ b.entries := by
    rintro ⟨v, w⟩
    rw [mem_entries_iff, mem_entries_iff, houtcomes, hweight]
  exact eq_of_entries_perm ((List.perm_ext_iff_of_nodup (List.Nodup.of_map _ a.nodup_outcomes)
    (List.Nodup.of_map _ b.nodup_outcomes)).2 hmem)

/-! ## Expectations -/

theorem expectationOver_eq_sum_map (f : Int → Rat) (entries : List Entry) :
    expectationOver f entries = (entries.map fun e => f e.1 * e.2).sum := by
  induction entries with
  | nil => rfl
  | cons e rest ih => rw [expectationOver, ih, List.map_cons, List.sum_cons]

theorem expectationOver_eq_sum (f : Int → Rat) {entries : List Entry} (h : Ascending entries) :
    expectationOver f entries
      = ∑ v ∈ (entries.map (·.1)).toFinset, f v * weightIn v entries := by
  induction entries with
  | nil => rfl
  | cons e rest ih =>
    obtain ⟨v, w⟩ := e
    obtain ⟨hhead, hrest⟩ := List.pairwise_cons.1 h
    have hv : v ∉ (rest.map (·.1)).toFinset := by
      rw [List.mem_toFinset, List.mem_map]
      rintro ⟨e, he, rfl⟩
      exact Int.lt_irrefl _ (hhead e he)
    rw [expectationOver, ih hrest, List.map_cons, List.toFinset_cons, Finset.sum_insert hv]
    congr 1
    · simp [weightIn]
    · -- the outcome in front is none of the others
      refine Finset.sum_congr rfl fun u hu => ?_
      rw [weightIn, if_neg]
      rintro rfl
      exact hv hu

/-- The expectation of a function, as a sum over the outcomes. -/
theorem expectation_eq_sum (t : Table) (f : Int → Rat) :
    t.expectation f = ∑ v ∈ t.outcomes.toFinset, f v * t.weight v :=
  expectationOver_eq_sum f t.ascending

theorem expectation_one (t : Table) :
    (t.expectation fun _ => 1) = (t.entries.map (·.2)).sum := by
  simp only [expectation, expectationOver_eq_sum_map, one_mul]

theorem expectation_congr {f g : Int → Rat} (h : ∀ v ∈ t.outcomes, f v = g v) :
    t.expectation f = t.expectation g := by
  rw [expectation_eq_sum, expectation_eq_sum]
  refine Finset.sum_congr rfl fun v hv => ?_
  rw [h v (List.mem_toFinset.1 hv)]

theorem expectation_add_fun (t : Table) (f g : Int → Rat) :
    t.expectation (fun v => f v + g v) = t.expectation f + t.expectation g := by
  simp only [expectation_eq_sum, add_mul, Finset.sum_add_distrib]

theorem expectation_const_mul (t : Table) (c : Rat) (f : Int → Rat) :
    (t.expectation fun v => c * f v) = c * t.expectation f := by
  simp only [expectation_eq_sum, Finset.mul_sum, mul_assoc]

/-- The weight of a number is the expectation of the function that is one there. -/
theorem weight_eq_expectation (t : Table) (v : Int) :
    t.weight v = t.expectation fun u => if u = v then 1 else 0 := by
  simp only [expectation_eq_sum, ite_mul, one_mul, zero_mul, Finset.sum_ite_eq',
    List.mem_toFinset]
  split
  · rfl
  · exact weight_of_notMem ‹_›

/-- The weight of all outcomes with a property. -/
def mass (t : Table) (p : Int → Prop) [DecidablePred p] : Rat :=
  ∑ v ∈ t.outcomes.toFinset with p v, t.weight v

/-- It is the expectation of the function that is one where the property holds. -/
theorem mass_eq_expectation (t : Table) (p : Int → Prop) [DecidablePred p] :
    t.mass p = t.expectation fun v => if p v then 1 else 0 := by
  simp only [mass, expectation_eq_sum, Finset.sum_filter, ite_mul, one_mul, zero_mul]

theorem mass_eq_sum_filter (t : Table) (p : Int → Prop) [DecidablePred p] :
    t.mass p = ((t.entries.filter fun e => p e.1).map (·.2)).sum := by
  rw [mass_eq_expectation, expectation, expectationOver_eq_sum_map]
  induction t.entries with
  | nil => rfl
  | cons e rest ih =>
    rw [List.map_cons, List.sum_cons, ih, List.filter_cons]
    by_cases he : p e.1 <;> simp [he]

theorem mass_add_mass_not (t : Table) (p : Int → Prop) [DecidablePred p] :
    t.mass p + t.mass (fun v => ¬ p v) = t.expectation fun _ => 1 := by
  simp only [mass, expectation_eq_sum, one_mul]
  exact Finset.sum_filter_add_sum_filter_not _ _ _

theorem mass_le_eq (t : Table) (v : Int) : t.mass (· ≤ v) = t.mass (· < v) + t.weight v := by
  rw [mass_eq_expectation, mass_eq_expectation, weight_eq_expectation, ← expectation_add_fun]
  refine expectation_congr fun u _ => ?_
  rcases Int.lt_trichotomy u v with h | rfl | h
  · simp [h, h.le, h.ne]
  · simp
  · simp [h.not_ge, h.not_gt, h.ne']

/-- If cases with weights come out at numbers, the weight of a number is that of its cases. -/
theorem weight_eq_sum_cases {ι : Type} {cases : Finset ι} {out : ι → Int} {share : ι → Rat}
    (h : ∀ f : Int → Rat, t.expectation f = ∑ i ∈ cases, f (out i) * share i) (v : Int) :
    t.weight v = ∑ i ∈ cases with out i = v, share i := by
  rw [weight_eq_expectation, h, Finset.sum_filter]
  simp only [ite_mul, one_mul, zero_mul]

/-- Tables with the same outcomes and the same expectations are equal. -/
theorem ext_expectation (houtcomes : ∀ v, v ∈ a.outcomes ↔ v ∈ b.outcomes)
    (h : ∀ f, a.expectation f = b.expectation f) : a = b :=
  ext_weight houtcomes fun v => by rw [weight_eq_expectation, weight_eq_expectation, h]

end Table

end DiceLaw
