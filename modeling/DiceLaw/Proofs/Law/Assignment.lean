import DiceLaw.Proofs.Law.Combination

/-!
# Tables that are given in any order

Numbers are given weights one after the other, and each number keeps the last weight that it is
given. If no number is given a weight twice, the entries of the table are those that were given, in
ascending order.

## Main results

* `Table.mem_outcomes_ofAssignments`: the outcomes
* `Table.entries_ofAssignments_perm`: the entries, if no number is given a weight twice
-/

namespace DiceLaw

namespace Table

variable {t : Table} {u v : Int} {w x : Rat} {given : List Entry}

/-! ## One weight -/

theorem mem_outcomes_assign : u ∈ (t.assign v w).outcomes ↔ u = v ∨ u ∈ t.outcomes := by
  rw [assign, mem_outcomes_insert, mem_outcomes_filter, bne_iff_ne]
  tauto

theorem weight_assign : (t.assign v w).weight u = if u = v then w else t.weight u := by
  rw [weight_eq_expectation, assign, expectation_insert, ← weight_eq_expectation, weight_filter]
  by_cases hu : u = v
  · simp [hu]
  · simp [hu, Ne.symm hu]

/-- The number has its new weight, and the others have kept theirs. -/
theorem mem_entries_assign :
    (u, x) ∈ (t.assign v w).entries ↔ u = v ∧ x = w ∨ u ≠ v ∧ (u, x) ∈ t.entries := by
  rw [mem_entries_iff, mem_entries_iff, mem_outcomes_assign, weight_assign]
  by_cases hu : u = v
  · simp [hu, eq_comm]
  · simp [hu]

/-! ## One weight after the other -/

theorem ofAssignments_snoc (given : List Entry) (e : Entry) :
    ofAssignments (given ++ [e]) = (ofAssignments given).assign e.1 e.2 := by
  rw [ofAssignments, List.foldl_append]
  rfl

theorem mem_outcomes_ofAssignments : v ∈ (ofAssignments given).outcomes ↔ v ∈ given.map (·.1) := by
  induction given using List.reverseRecOn with
  | nil => simp [ofAssignments]
  | append_singleton given e ih =>
    rw [ofAssignments_snoc, mem_outcomes_assign, ih]
    simp [or_comm]

theorem mem_entries_ofAssignments (h : (given.map (·.1)).Nodup) :
    (v, w) ∈ (ofAssignments given).entries ↔ (v, w) ∈ given := by
  induction given using List.reverseRecOn with
  | nil => simp [ofAssignments]
  | append_singleton given e ih =>
    obtain ⟨k, y⟩ := e
    rw [List.map_append, List.nodup_append'] at h
    obtain ⟨hgiven, -, hdisjoint⟩ := h
    rw [ofAssignments_snoc, mem_entries_assign, ih hgiven, List.mem_append, List.mem_singleton,
      Prod.mk.injEq, or_comm]
    -- the number given last was not given before
    have hne : (v, w) ∈ given → v ≠ k := by
      rintro hmem rfl
      exact hdisjoint (List.mem_map_of_mem hmem) (by simp)
    tauto

/-- If no number is given a weight twice, the entries are those that were given. -/
theorem entries_ofAssignments_perm (h : (given.map (·.1)).Nodup) :
    (ofAssignments given).entries.Perm given := by
  refine (List.perm_ext_iff_of_nodup (List.Nodup.of_map _ (nodup_outcomes _))
    (List.Nodup.of_map _ h)).2 ?_
  rintro ⟨v, w⟩
  exact mem_entries_ofAssignments h

end Table

end DiceLaw
