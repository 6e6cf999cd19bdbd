import DiceLaw.Proofs.Law.Distribution
import DiceLaw.Roll.Statistics

/-!
# Running sums of a distribution

The running sums of positive weights increase from outcome to outcome, and the last one is the sum
of all weights. So the running sums of the roll of a formula rise to exactly one.

## Main results

* `runningSums_increasing`, `getLast?_runningSums`: running sums of positive weights
* `Table.cumulative_eq_map`: the weight of all outcomes up to each
* `Formula.law_normalised`: the law of a formula, and the running sums of its roll
-/

namespace DiceLaw

variable {start : Rat} {entries : List Entry}

theorem lt_of_mem_runningSums (h : ∀ e ∈ entries, 0 < e.2) :
    ∀ e ∈ runningSums start entries, start < e.2 := by
  induction entries generalizing start with
  | nil => exact fun _ he => absurd he List.not_mem_nil
  | cons head rest ih =>
    obtain ⟨hhead, hrest⟩ := List.forall_mem_cons.1 h
    have hstart : start < start + head.2 := lt_add_of_pos_right start hhead
    exact List.forall_mem_cons.2 ⟨hstart, fun e he => hstart.trans (ih hrest e he)⟩

/-- The running sums of positive weights increase. -/
theorem runningSums_increasing (h : ∀ e ∈ entries, 0 < e.2) :
    (runningSums start entries).Pairwise fun a b => a.2 < b.2 := by
  induction entries generalizing start with
  | nil => exact List.Pairwise.nil
  | cons head rest ih =>
    obtain ⟨-, hrest⟩ := List.forall_mem_cons.1 h
    exact List.pairwise_cons.2 ⟨lt_of_mem_runningSums hrest, ih hrest⟩

theorem ascending_runningSums (h : Ascending entries) : Ascending (runningSums start entries) := by
  have hmap : ((runningSums start entries).map (·.1)).Pairwise (· < ·) := by
    rw [map_fst_runningSums]
    exact List.pairwise_map.2 h
  exact List.pairwise_map.1 hmap

/-- The last running sum is the sum of all weights, at the last outcome. -/
theorem getLast?_runningSums (start : Rat) (entries : List Entry) :
    (runningSums start entries).getLast?
      = entries.getLast?.map fun e => (e.1, start + (entries.map (·.2)).sum) := by
  induction entries generalizing start with
  | nil => rfl
  | cons head rest ih =>
    cases rest with
    | nil => simp [runningSums]
    | cons next rest =>
      rw [runningSums, runningSums, List.getLast?_cons_cons, ← runningSums, ih,
        List.getLast?_cons_cons]
      simp only [List.map_cons, List.sum_cons, add_assoc]

/-- Each running sum is that of the weights up to its outcome. -/
theorem runningSums_eq_map (h : Ascending entries) (start : Rat) :
    runningSums start entries = entries.map fun e =>
      (e.1, start + ((entries.filter fun d => d.1 ≤ e.1).map (·.2)).sum) := by
  induction entries generalizing start with
  | nil => rfl
  | cons head rest ih =>
    obtain ⟨hhead, hrest⟩ := List.pairwise_cons.1 h
    rw [runningSums, ih hrest, List.map_cons]
    congr 1
    · -- no outcome behind the head lies up to it
      have hnone : (rest.filter fun d => d.1 ≤ head.1) = [] :=
        List.filter_eq_nil_iff.2 fun d hd => by simpa using hhead d hd
      simp [hnone]
    · refine List.map_congr_left fun e he => ?_
      simp [(hhead e he).le, add_assoc]

/-- The running sums of a table pair each outcome with the weight of all outcomes up to it. -/
theorem Table.cumulative_eq_map (t : Table) :
    t.cumulative = t.outcomes.map fun v => (v, t.mass (· ≤ v)) := by
  rw [cumulative, runningSums_eq_map t.ascending, outcomes, List.map_map]
  simp only [mass_eq_sum_filter, zero_add, Function.comp_def]

theorem Table.fst_mem_outcomes {t : Table} {e : Entry} (h : e ∈ t.cumulative) :
    e.1 ∈ t.outcomes := by
  have hmem : e.1 ∈ t.cumulative.map (·.1) := List.mem_map_of_mem h
  rwa [cumulative, map_fst_runningSums] at hmem

/-- The law of a formula has an outcome, its weights are positive, and they sum to one. So the
formula makes a roll with this table, and the running sums of the roll increase from outcome to
outcome up to one, which is reached at the greatest outcome. -/
theorem Formula.law_normalised (f : Formula) (t : Table) (h : f.law = .ok t) :
    t.entries ≠ [] ∧ (∀ e ∈ t.entries, 0 < e.2) ∧ (t.entries.map (·.2)).sum = 1 ∧
    ∃ r, Roll.ofFormula? f = .ok r ∧ r.table = t ∧
      r.table.cumulative.Pairwise (fun a b => a.1 < b.1 ∧ a.2 < b.2) ∧
      r.table.cumulative.getLast? = some (r.greatest, 1) := by
  have hlaw : t.IsDistribution := isDistribution_law f h
  have hoccupied : t.entries ≠ [] := fun hempty =>
    hlaw.outcomes_ne_nil (by rw [Table.outcomes, hempty, List.map_nil])
  have htotal : (t.entries.map (·.2)).sum = 1 := by
    have h := hlaw.total
    rwa [Table.expectation, Table.expectationOver_eq_sum_map, funext fun e => one_mul _] at h
  refine ⟨hoccupied, hlaw.positive, htotal, ⟨f.text, t, hoccupied⟩, ?_, rfl, ?_, ?_⟩
  · rw [Roll.ofFormula?, h]
    exact dif_neg hoccupied
  · exact (ascending_runningSums t.ascending).and (runningSums_increasing hlaw.positive)
  · show (runningSums 0 t.entries).getLast? = some ((t.entries.getLast hoccupied).1, 1)
    rw [getLast?_runningSums, htotal, List.getLast?_eq_some_getLast hoccupied]
    simp

/-- A coin with the faces one and two that is tossed again after a two comes out at one, three or
four. -/
theorem Formula.law_normalised_of_exploding_coin :
    ∃ t, law (.explode (.die ⟨1, 2, by decide⟩) none 1) = .ok t ∧ t.outcomes = [1, 3, 4] ∧
      (t.entries.map (·.2)).sum = 1 ∧
      ∃ r, Roll.ofFormula? (.explode (.die ⟨1, 2, by decide⟩) none 1) = .ok r ∧
        r.table.cumulative.getLast? = some (r.greatest, 1) := by
  obtain ⟨-, -, htotal, r, hr, -, -, hlast⟩ :=
    law_normalised (.explode (.die ⟨1, 2, by decide⟩) none 1) _ rfl
  exact ⟨_, rfl, by decide, htotal, r, hr, hlast⟩

end DiceLaw
