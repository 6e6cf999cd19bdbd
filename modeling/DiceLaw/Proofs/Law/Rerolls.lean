import DiceLaw.Proofs.Law.Sampling

/-!
# Exploding rolls and samples

An exploding roll and a sum of samples are computed in different ways. One keeps the totals that
have exploded apart from those that have ended, and the other grows a single sum; but where every
roll explodes there is nothing to keep apart, and each repetition is one more sample. Where no roll
explodes, the first one is kept.

## Main results

* `Table.explode_of_reached`, `Table.explode_of_not_reached`: a threshold below all outcomes, and
  one above them
* `Formula.law_explode_overlaps`: where exploding formulas are sample-sums
-/

namespace DiceLaw

namespace Table

variable {t : Table} {p : Int → Bool} {threshold : Int}

/-! ## All outcomes on one side -/

theorem filter_eq_self (h : ∀ v ∈ t.outcomes, p v = true) : t.filter p = t :=
  ext_entries (List.filter_eq_self.2 fun e he => h e.1 (List.mem_map_of_mem he))

theorem filter_eq_empty (h : ∀ v ∈ t.outcomes, p v = false) : t.filter p = empty := by
  refine ext_entries (List.filter_eq_nil_iff.2 fun e he => ?_)
  rw [h e.1 (List.mem_map_of_mem he)]
  exact Bool.false_ne_true

/-- If every roll explodes, all repetitions are added to the first roll. -/
theorem explode_of_reached (h : ∀ v ∈ t.outcomes, threshold ≤ v) (limit : Nat) :
    explode t threshold limit = samples t (limit + 1) := by
  have hended : t.filter (fun v => v < threshold) = empty :=
    filter_eq_empty fun v hv => decide_eq_false (h v hv).not_gt
  have hexploded : t.filter (fun v => threshold ≤ v) = t :=
    filter_eq_self fun v hv => decide_eq_true (h v hv)
  induction limit with
  | zero => rw [explode_zero, samples_one]
  | succ limit ih =>
    -- one repetition more is one sample more, in front of the others
    calc explode t threshold (limit + 1)
        = empty + combine (· + ·) t (samples t (limit + 1)) := by
          rw [explode_succ, hended, hexploded, ih]
      _ = combine (· + ·) (samples t (limit + 1)) t := combine_comm Int.add_comm _ _
      _ = samples t (limit + 1 + 1) := (samples_succ t (limit + 1)).symm

/-- If no roll explodes, the first one is kept. -/
theorem explode_of_not_reached (h : ∀ v ∈ t.outcomes, v < threshold) (limit : Nat) :
    explode t threshold limit = t := by
  have hended : t.filter (fun v => v < threshold) = t :=
    filter_eq_self fun v hv => decide_eq_true (h v hv)
  have hexploded : t.filter (fun v => threshold ≤ v) = empty :=
    filter_eq_empty fun v hv => decide_eq_false (h v hv).not_ge
  cases limit with
  | zero => exact explode_zero t threshold
  | succ limit =>
    rw [explode_succ, hended, hexploded]
    exact add_empty t

end Table

namespace Formula

variable {body : Formula} {t : Table}

/-- The law of a fixed number of samples. -/
theorem law_sampleSum_constant (h : law body = .ok t) (n : Nat) :
    law (.join .sampleSum (.constant n) [body]) = .ok (Table.samples t n) := by
  have hcount : ∀ c ∈ (Table.sure n).outcomes, 0 ≤ c := by simp
  refine law_sampleSum_eq_ok (by rw [law]) h ?_
  rw [Table.sampleSum_eq_sampled t hcount, Table.sampled_sure, Int.toNat_natCast]

theorem law_explode_of_threshold (h : law body = .ok t) (threshold : Int) (limit : Nat) :
    law (.explode body (some threshold) limit) = .ok (t.explode threshold limit) :=
  law_explode_eq_ok.2 ⟨t, h, rfl⟩

/-- An exploding formula is a sample-sum where the two overlap. If no outcome of the body lies below
the threshold, as many samples are added as there may be rolls. If all of them do, or if nothing may
be rolled again, one sample is taken, and this is the body itself. -/
theorem law_explode_overlaps (h : law body = .ok t) :
    (∀ (threshold : Int) (limit : Nat), (∀ v ∈ t.outcomes, threshold ≤ v) →
      ∃ u, law (.explode body (some threshold) limit) = .ok u ∧
        law (.join .sampleSum (.constant (limit + 1)) [body]) = .ok u) ∧
    (∀ (threshold : Int) (limit : Nat), (∀ v ∈ t.outcomes, v < threshold) →
      law (.explode body (some threshold) limit) = .ok t) ∧
    (∀ threshold : Option Int, law (.explode body threshold 0) = .ok t) ∧
    law (.join .sampleSum (.constant 1) [body]) = .ok t := by
  refine ⟨fun threshold limit hreached => ?_, fun threshold limit hnone => ?_, fun threshold => ?_,
    ?_⟩
  · refine ⟨t.samples (limit + 1), ?_, law_sampleSum_constant h (limit + 1)⟩
    rw [law_explode_of_threshold h, Table.explode_of_reached hreached]
  · rw [law_explode_of_threshold h, Table.explode_of_not_reached hnone]
  · exact law_explode_eq_ok.2 ⟨t, h, Table.explode_zero t _⟩
  · have hone := law_sampleSum_constant h 1
    rwa [Table.samples_one] at hone

/-- A die with the faces minus one, zero and one: all faces explode from minus one on, none from two
on, and nothing is rolled again without a repetition. -/
theorem law_explode_overlaps_of_signed_die :
    law (.die ⟨-1, 1, by decide⟩) = .ok (Die.law ⟨-1, 1, by decide⟩) ∧
    (∃ u, law (.explode (.die ⟨-1, 1, by decide⟩) (some (-1)) 2) = .ok u ∧
      law (.join .sampleSum (.constant 3) [.die ⟨-1, 1, by decide⟩]) = .ok u) ∧
    law (.explode (.die ⟨-1, 1, by decide⟩) (some 2) 2) = .ok (Die.law ⟨-1, 1, by decide⟩) ∧
    law (.explode (.die ⟨-1, 1, by decide⟩) none 0) = .ok (Die.law ⟨-1, 1, by decide⟩) := by
  have hlaw : law (.die ⟨-1, 1, by decide⟩) = .ok (Die.law ⟨-1, 1, by decide⟩) := rfl
  obtain ⟨hreached, hnone, hzero, -⟩ := law_explode_overlaps hlaw
  exact ⟨hlaw, hreached (-1) 2 (by decide), hnone 2 2 (by decide), hzero none⟩

end Formula

end DiceLaw
