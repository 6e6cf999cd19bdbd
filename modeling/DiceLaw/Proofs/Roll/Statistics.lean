import DiceLaw.Proofs.Roll.Scan
import DiceLaw.Proofs.Roll.Variance

/-!
# Statistics of a table

A table may be given in any order, and may give some outcomes the weight zero. The roll of such a
table states its true statistics: the outcomes in ascending order with their ends, the running sums,
the least outcome at which half of all weight is reached, all outcomes of greatest weight, the mean
and the variance.

## Main definitions

* `Roll.IsSummaryOf`: a roll states the statistics of entries that are given in some order

## Main results

* `Roll.greatest_mem`, `Roll.le_greatest`: the greatest outcome
* `Roll.mem_modes_iff`: the outcomes of greatest weight
* `Table.IsProbability.variance_eq_zero_iff`: what does not spread
* `Roll.isSummaryOf_given`: the statistics of a table that is given in any order
-/

namespace DiceLaw

/-! ## Tables that do not spread -/

namespace Table.IsProbability

variable {t : Table} (h : t.IsProbability)

include h

theorem variance_nonneg : 0 ≤ t.variance := h.expectation_nonneg fun _ => sq_nonneg _

theorem exists_weight_pos : ∃ v, 0 < t.weight v := by
  have htotal : 0 < ∑ v ∈ t.outcomes.toFinset, 1 * t.weight v := by
    rw [← expectation_eq_sum t fun _ => 1, h.total]
    exact one_pos
  obtain ⟨v, -, hv⟩ := (Finset.sum_pos_iff_of_nonneg fun v _ =>
    (h.weight_nonneg v).trans_eq (one_mul _).symm).1 htotal
  exact ⟨v, by rwa [one_mul] at hv⟩

/-- If nothing spreads, all numbers of positive weight are the mean. -/
theorem eq_mean_of_variance_eq_zero (hvariance : t.variance = 0) {v : Int} (hv : 0 < t.weight v) :
    (v : Rat) = t.mean := by
  have hmem := mem_outcomes_of_weight_pos hv
  rw [variance, expectation_eq_sum, Finset.sum_eq_zero_iff_of_nonneg fun u _ =>
    mul_nonneg (sq_nonneg _) (h.weight_nonneg u)] at hvariance
  have hzero := (mul_eq_zero.1 (hvariance v (List.mem_toFinset.2 hmem))).resolve_right hv.ne'
  exact sub_eq_zero.1 (pow_eq_zero_iff two_ne_zero |>.1 hzero)

/-- If only one number has a positive weight, it is expected. -/
theorem expectation_of_single {v : Int} (hsingle : ∀ u, 0 < t.weight u → u = v) (f : Int → Rat) :
    t.expectation f = f v := by
  have hone : ∀ f : Int → Rat, t.expectation f = f v * t.weight v := by
    intro f
    rw [expectation_eq_sum]
    refine Finset.sum_eq_single v (fun u _ hu => ?_) fun hv => ?_
    · rw [(h.weight_nonneg u).antisymm' (not_lt.1 (mt (hsingle u) hu)), mul_zero]
    · rw [weight_of_notMem (mt List.mem_toFinset.2 hv), mul_zero]
  have htotal := h.total
  rw [hone, one_mul] at htotal
  rw [hone, htotal, mul_one]

/-- Nothing spreads only if there is a single outcome of positive weight. -/
theorem variance_eq_zero_iff : t.variance = 0 ↔ ∃! e, e ∈ t.entries ∧ 0 < e.2 := by
  constructor
  · intro hvariance
    obtain ⟨v, hv⟩ := h.exists_weight_pos
    refine ⟨(v, t.weight v), ⟨mem_entries_iff.2 ⟨mem_outcomes_of_weight_pos hv, rfl⟩, hv⟩, ?_⟩
    rintro ⟨u, w⟩ ⟨he, hw⟩
    obtain rfl := weight_of_mem he
    have hu : (u : Rat) = v := (h.eq_mean_of_variance_eq_zero hvariance hw).trans
      (h.eq_mean_of_variance_eq_zero hvariance hv).symm
    obtain rfl := Int.cast_inj.1 hu
    rfl
  · rintro ⟨⟨v, w⟩, -, hunique⟩
    have hsingle : ∀ u, 0 < t.weight u → u = v := fun u hu => congrArg Prod.fst
      (hunique (u, t.weight u) ⟨mem_entries_iff.2 ⟨mem_outcomes_of_weight_pos hu, rfl⟩, hu⟩)
    rw [variance, mean, h.expectation_of_single hsingle, h.expectation_of_single hsingle, sub_self,
      zero_pow two_ne_zero]

end Table.IsProbability

namespace Roll

variable {r : Roll} {v : Int} {w : Rat}

/-! ## Ends -/

theorem head?_entries (r : Roll) : r.table.entries.head?.map (·.1) = some r.least := by
  rw [List.head?_eq_some_head r.occupied]
  rfl

theorem getLast?_entries (r : Roll) : r.table.entries.getLast?.map (·.1) = some r.greatest :=
  r.greatest?_table

theorem le_greatest (hv : v ∈ r.table.outcomes) : v ≤ r.greatest := by
  obtain ⟨e, he, -, hle⟩ := Table.exists_greatest (List.ne_nil_of_mem hv)
  have hlast := r.getLast?_entries
  rw [he] at hlast
  rw [← Option.some.inj hlast]
  exact hle v hv

theorem greatest_mem (r : Roll) : r.greatest ∈ r.table.outcomes :=
  List.mem_map_of_mem (List.getLast_mem r.occupied)

/-! ## Modes -/

theorem le_peak : ∀ e ∈ r.table.entries, e.2 ≤ r.peak := le_peakOf

/-- Weights that are not negative lie above minus one, so that one of them is the greatest. -/
theorem exists_eq_peak (h : r.table.IsProbability) : ∃ e ∈ r.table.entries, e.2 = r.peak := by
  rcases exists_eq_peakOf r.table.entries with hpeak | hpeak
  · obtain ⟨e, he⟩ := List.exists_mem_of_ne_nil _ h.entries_ne_nil
    have hlow : e.2 ≤ -1 := (le_peak e he).trans_eq hpeak
    have hnonneg := h.nonneg e he
    linarith
  · exact hpeak

/-- The modes are all outcomes of greatest weight. -/
theorem mem_modes_iff (h : r.table.IsProbability) :
    v ∈ r.modes ↔ ∃ w, (v, w) ∈ r.table.entries ∧ ∀ e ∈ r.table.entries, e.2 ≤ w := by
  have hmem : v ∈ r.modes ↔ (v, r.peak) ∈ r.table.entries := by simp [modes]
  rw [hmem]
  constructor
  · exact fun hv => ⟨r.peak, hv, le_peak⟩
  · rintro ⟨w, hv, hle⟩
    obtain ⟨e, he, hpeak⟩ := exists_eq_peak h
    have hw : w = r.peak := (le_peak _ hv).antisymm (hpeak.symm.trans_le (hle e he))
    rwa [← hw]

theorem modes_ascending (r : Roll) : r.modes.Pairwise (· < ·) :=
  List.pairwise_map.2 (r.table.ascending.filter _)

/-! ## The median -/

theorem median_mem (h : r.table.IsProbability) : r.median ∈ r.table.outcomes :=
  mem_outcomes_of_outcomeAt? (outcomeAt?_half h.total)

theorem half_le_probLte_median (h : r.table.IsProbability) : 1 / 2 ≤ r.probLte r.median :=
  le_probLte_of_outcomeAt? (outcomeAt?_half h.total)

theorem probLt_median_lt_half (h : r.table.IsProbability) : r.probLt r.median < 1 / 2 :=
  probLt_lt_of_outcomeAt? (by norm_num) (outcomeAt?_half h.total)

/-- Before the median half of all weight is not reached. -/
theorem median_le (h : r.table.IsProbability) (hv : 1 / 2 ≤ r.probLte v) : r.median ≤ v := by
  by_contra hlt
  have hbefore := probLte_le_probLt h (not_le.1 hlt)
  exact (hbefore.trans_lt (probLt_median_lt_half h)).not_ge hv

theorem half_lt_probGte_median (h : r.table.IsProbability) : 1 / 2 < r.probGte r.median := by
  have hbefore := probLt_median_lt_half h
  rw [probGte]
  linarith

/-! ## Tables in any order -/

/-- A roll states the statistics of entries that are given in some order. -/
structure IsSummaryOf (r : Roll) (given : List Entry) : Prop where
  /-- The table has the entries in ascending order. -/
  entries_perm : r.table.entries.Perm given
  entries_ascending : Ascending r.table.entries
  /-- The ends are the first and the last outcome. -/
  least_eq : r.table.entries.head?.map (·.1) = some r.least
  greatest_eq : r.table.entries.getLast?.map (·.1) = some r.greatest
  /-- The running sums are those of all weights up to each outcome. -/
  cumulative_eq : r.table.cumulative = r.table.outcomes.map fun v =>
    (v, ((given.filter fun e => e.1 ≤ v).map (·.2)).sum)
  /-- The median is the least outcome at which half of all weight is reached, and more than half
  lies from there on. -/
  median_isLeast : IsLeast {m | m ∈ given.map (·.1) ∧
    1 / 2 ≤ ((given.filter fun e => e.1 ≤ m).map (·.2)).sum} r.median
  half_lt_from_median : 1 / 2 < ((given.filter fun e => r.median ≤ e.1).map (·.2)).sum
  /-- The modes are all outcomes of greatest weight, in ascending order. -/
  modes_ascending : r.modes.Pairwise (· < ·)
  mem_modes : ∀ v, v ∈ r.modes ↔ ∃ w, (v, w) ∈ given ∧ ∀ e ∈ given, e.2 ≤ w
  /-- The mean is the sum of the outcomes, each times its weight. -/
  mean_eq : r.mean = (given.map fun e => (e.1 : Rat) * e.2).sum
  /-- The variance is the second moment less the squared mean. Nothing spreads only if there is a
  single outcome of positive weight. -/
  variance_eq : r.variance = (given.map fun e => (e.1 : Rat) ^ 2 * e.2).sum - r.mean ^ 2
  variance_nonneg : 0 ≤ r.variance
  variance_eq_zero : r.variance = 0 ↔ ∃! e, e ∈ given ∧ 0 < e.2

/-- A roll whose table has given entries, which are probabilities, states their statistics. -/
theorem isSummaryOf_of_perm {given : List Entry} (h : r.table.IsProbability)
    (hperm : r.table.entries.Perm given) : r.IsSummaryOf given := by
  have hmass : ∀ (p : Int → Prop) [DecidablePred p],
      r.table.mass p = ((given.filter fun e => p e.1).map (·.2)).sum := fun p _ =>
    (r.table.mass_eq_sum_filter p).trans ((hperm.filter _).map _).sum_eq
  have hexpectation : ∀ f : Int → Rat,
      r.table.expectation f = (given.map fun e => f e.1 * e.2).sum := fun f =>
    (Table.expectationOver_eq_sum_map f _).trans (hperm.map _).sum_eq
  have hlte : ∀ v, r.probLte v = ((given.filter fun e => e.1 ≤ v).map (·.2)).sum := fun v =>
    (r.probLte_eq_mass v).trans (hmass _)
  have houtcomes : r.table.outcomes.Perm (given.map (·.1)) := hperm.map _
  constructor
  case entries_perm => exact hperm
  case entries_ascending => exact r.table.ascending
  case least_eq => exact r.head?_entries
  case greatest_eq => exact r.getLast?_entries
  case cumulative_eq =>
    rw [Table.cumulative_eq_map]
    simp only [hmass]
  case median_isLeast =>
    simp only [← hlte, ← houtcomes.mem_iff]
    exact ⟨⟨median_mem h, half_le_probLte_median h⟩, fun m hm => median_le h hm.2⟩
  case half_lt_from_median =>
    rw [← hmass, ← probGte_eq_mass _ h.total]
    exact half_lt_probGte_median h
  case modes_ascending => exact r.modes_ascending
  case mem_modes =>
    intro v
    simp only [mem_modes_iff h, hperm.mem_iff]
  case mean_eq => exact hexpectation _
  case variance_eq =>
    rw [← variance_table, h.variance_eq, Table.square, hexpectation, mean_table]
  case variance_nonneg =>
    rw [← variance_table]
    exact h.variance_nonneg
  case variance_eq_zero =>
    rw [← variance_table, h.variance_eq_zero_iff]
    simp only [hperm.mem_iff]

/-- The roll of a table that is given in any order, with weights that are not negative and sum to
one, states the true statistics of the table. One pass over the outcomes finds mean, total, median
and modes. -/
theorem isSummaryOf_given (name : String) (given : List Entry) (hnodup : (given.map (·.1)).Nodup)
    (hnonneg : ∀ e ∈ given, 0 ≤ e.2) (hsum : (given.map (·.2)).sum = 1) :
    ∃ r, ofTable? name (Table.ofAssignments given) = .ok r ∧ r.IsSummaryOf given ∧
      r.table.entries.foldl Scan.next Scan.start = ⟨r.mean, 1, some r.median, r.modes, r.peak⟩ := by
  have hperm := Table.entries_ofAssignments_perm hnodup
  have h : (Table.ofAssignments given).IsProbability :=
    Table.isProbability_of_sum (fun e he => hnonneg e (hperm.mem_iff.1 he))
      ((hperm.map _).sum_eq.trans hsum)
  exact ⟨_, ofTable?_of_ne_nil name h.entries_ne_nil, isSummaryOf_of_perm h hperm,
    foldl_next_entries h.total⟩

/-- Four numbers that are given out of order: one of them has no weight, and half of all weight is
reached exactly at the second. -/
theorem isSummaryOf_given_of_four :
    ∃ r, ofTable? "loaded" (Table.ofAssignments [(4, 1 / 2), (-1, 1 / 4), (7, 0), (2, 1 / 4)])
        = .ok r ∧
      r.table.entries = [(-1, 1 / 4), (2, 1 / 4), (4, 1 / 2), (7, 0)] ∧ r.median = 2 ∧
      r.modes = [4] ∧ r.mean = 9 / 4 ∧ r.variance = 67 / 16 := by
  obtain ⟨r, hr, hsummary, hscan⟩ := isSummaryOf_given "loaded"
    [(4, 1 / 2), (-1, 1 / 4), (7, 0), (2, 1 / 4)] (by decide) (by decide +kernel) (by norm_num)
  have htable := (ofTable?_eq_ok hr).2
  rw [htable] at hscan
  have hmean : r.mean = 9 / 4 := hsummary.mean_eq.trans (by norm_num)
  refine ⟨r, hr, ?_, ?_, ?_, hmean, ?_⟩
  · rw [htable]
    decide +kernel
  · exact Option.some.inj ((congrArg Scan.median hscan).symm.trans (by decide +kernel))
  · exact (congrArg Scan.modes hscan).symm.trans (by decide +kernel)
  · rw [hsummary.variance_eq, hmean]
    norm_num

end Roll

end DiceLaw
