import DiceLaw.Proofs.Law.Sampling
import Mathlib.Algebra.Ring.GeomSum

/-!
# Means of laws

Sums of independent outcomes add their means, and products multiply them. As many samples as a
count says have, in the mean, as many times the mean of one sample as the mean of the count, and
an exploding roll counts the roll once more for each time that it may be reached.

## Main results

* `Die.mean_law`: the middle of the faces
* `Table.mean_sampled`: a random number of samples
* `Table.mean_explode`: an exploding roll
* `Joint.mean_law_sum`, `Joint.mean_law_product`, `Joint.mean_law_sampleSum`: joined parts
-/

namespace DiceLaw

namespace Table

variable {t a b count sample : Table}

@[simp] theorem mean_sure (v : Int) : (sure v).mean = v := expectation_sure v _

theorem mean_combine_mul (a b : Table) : (combine (· * ·) a b).mean = a.mean * b.mean :=
  expectation_combine_mul (fun x y => Int.cast_mul x y) a b

/-- A random number of samples has the mean of the number times that of a sample. -/
theorem mean_sampled (hsample : sample.IsDistribution) (hcount : ∀ c ∈ count.outcomes, 0 ≤ c) :
    (sampled count sample).mean = count.mean * sample.mean := by
  have hinner : ∀ c ∈ count.outcomes, (samples sample c.toNat).mean = sample.mean * c := by
    intro c hc
    have hcast : ((c.toNat : Nat) : Rat) = c := by
      exact_mod_cast Int.toNat_of_nonneg (hcount c hc)
    rw [mean_samples hsample, hcast, mul_comm]
  rw [mean, expectation_sampled]
  refine (expectation_congr hinner).trans ?_
  rw [expectation_const_mul, ← mean, mul_comm]

/-! ## Exploding rolls -/

/-- A roll below the threshold ends. A roll that reaches it is kept as well, and rolled on. -/
theorem mean_explode_succ (h : t.IsDistribution) (threshold : Int) (limit : Nat) :
    (t.explode threshold (limit + 1)).mean
      = t.mean + t.mass (threshold ≤ ·) * (t.explode threshold limit).mean := by
  have hexplode := h.explode threshold limit
  have hinner : ∀ x : Int, ((t.explode threshold limit).expectation fun y => ((x + y : Int) : Rat))
      = x + (t.explode threshold limit).mean := by
    intro x
    simp only [Int.cast_add]
    rw [expectation_add_fun, hexplode.expectation_const, ← mean]
  have hcases : ∀ v : Int, ((if v < threshold then (v : Rat) else 0)
        + if threshold ≤ v then (v : Rat) + (t.explode threshold limit).mean else 0)
      = v + (t.explode threshold limit).mean * if threshold ≤ v then 1 else 0 := by
    intro v
    by_cases hv : v < threshold
    · simp [hv, Int.not_le.2 hv]
    · simp [hv, Int.not_lt.1 hv]
  rw [mean, explode_succ, expectation_add, expectation_combine, expectation_filter,
    expectation_filter, ← expectation_add_fun]
  simp only [decide_eq_true_eq, hinner, hcases]
  rw [expectation_add_fun, expectation_const_mul, ← mass_eq_expectation, ← mean, mul_comm]

/-- An exploding roll counts the mean once for each time that the roll may be reached. -/
theorem mean_explode (h : t.IsDistribution) (threshold : Int) (limit : Nat) :
    (t.explode threshold limit).mean
      = t.mean * ∑ i ∈ Finset.range (limit + 1), t.mass (threshold ≤ ·) ^ i := by
  induction limit with
  | zero => simp [explode_zero]
  | succ limit ih =>
    rw [mean_explode_succ h, ih, geom_sum_succ (n := limit + 1)]
    ring

end Table

/-! ## Dice -/

theorem sum_consecutive (a : Rat) (n : Nat) :
    ∑ i ∈ Finset.range n, (a + i) = n * (a + (n - 1) / 2) := by
  induction n with
  | zero => simp
  | succ n ih =>
    rw [Finset.sum_range_succ, ih]
    push_cast
    ring

namespace Die

theorem cast_size (d : Die) : (d.size : Rat) = d.hi - d.lo + 1 := by
  have hsize : (d.size : Int) = d.hi - d.lo + 1 := by
    have := d.lo_le_hi
    rw [size]
    omega
  exact_mod_cast hsize

/-- The values at the faces sum to as often their expectation as there are faces. -/
theorem expectation_law_of_sum {d : Die} {f : Int → Rat} {c : Rat}
    (h : ∑ i ∈ Finset.range d.size, f (d.lo + i) = d.size * c) : d.law.expectation f = c := by
  have hsize : (d.size : Rat) ≠ 0 := Nat.cast_ne_zero.2 d.size_pos.ne'
  rw [expectation_law, ← Finset.sum_mul, h, mul_one_div, mul_div_cancel_left₀ _ hsize]

/-- The mean of a die lies in the middle of its faces. -/
theorem mean_law (d : Die) : d.law.mean = (d.lo + d.hi) / 2 := by
  refine expectation_law_of_sum ?_
  simp only [Int.cast_add, Int.cast_natCast]
  rw [sum_consecutive, cast_size]
  ring

end Die

/-! ## Joints -/

namespace Table

variable {α : Type} {stat : Table → α} {op : α → α → α} {first : Table} {rest : List Table}

/-- What two tables compose from theirs when they are taken together, all tables compose from left
to right. -/
theorem chain_foldl {f : Table → Table → Except LawError Table}
    (hf : ∀ a b t, a.IsDistribution → b.IsDistribution → f a b = .ok t →
      t.IsDistribution ∧ stat t = op (stat a) (stat b))
    (h : ∀ t ∈ first :: rest, t.IsDistribution) (ht : chain f (first :: rest) = .ok t) :
    stat t = (rest.map stat).foldl op (stat first) := by
  induction rest generalizing first with
  | nil =>
    cases ht
    rfl
  | cons next rest ih =>
    simp only [List.forall_mem_cons] at h
    obtain ⟨hfirst, hnext, hrest⟩ := h
    obtain ⟨u, hu, ht⟩ := Except.bind_eq_ok.1 ht
    obtain ⟨hdistribution, hstat⟩ := hf first next u hfirst hnext hu
    rw [ih (List.forall_mem_cons.2 ⟨hdistribution, hrest⟩) ht, hstat, List.map_cons,
      List.foldl_cons]

theorem convolveAll_foldl {operator : Operator}
    (hstat : ∀ {a b : Table}, a.IsDistribution → b.IsDistribution →
      stat (combine operator.combine a b) = op (stat a) (stat b))
    (h : ∀ t ∈ first :: rest, t.IsDistribution)
    (ht : convolveAll operator (first :: rest) = .ok t) :
    stat t = (rest.map stat).foldl op (stat first) := by
  refine chain_foldl (fun a b t ha hb hconvolve => ⟨ha.of_convolve hb hconvolve, ?_⟩) h ht
  rw [eq_combine_of_convolve hconvolve, hstat ha hb]

theorem sampleSumAll_foldl
    (hstat : ∀ {count sample : Table}, count.IsDistribution → sample.IsDistribution →
      (∀ c ∈ count.outcomes, 0 ≤ c) → stat (sampled count sample) = op (stat count) (stat sample))
    (h : ∀ t ∈ first :: rest, t.IsDistribution) (ht : sampleSumAll (first :: rest) = .ok t) :
    stat t = (rest.map stat).foldl op (stat first) := by
  refine chain_foldl (fun a b t ha hb hsampled => ⟨ha.of_sampleSum hb hsampled, ?_⟩) h ht
  have hcount := nonneg_of_sampleSum hsampled
  rw [sampleSum_eq_sampled b hcount] at hsampled
  rw [← Except.ok.inj hsampled, hstat ha hb hcount]

end Table

namespace Joint

variable {first t : Table} {rest : List Table}

theorem mean_law_sum (h : ∀ t ∈ first :: rest, t.IsDistribution)
    (ht : sum.law (first :: rest) = .ok t) : t.mean = ((first :: rest).map Table.mean).sum := by
  rw [Table.convolveAll_foldl Table.mean_combine_add h ht]
  simp [List.sum_eq_foldl]

theorem mean_law_product (h : ∀ t ∈ first :: rest, t.IsDistribution)
    (ht : product.law (first :: rest) = .ok t) :
    t.mean = ((first :: rest).map Table.mean).prod := by
  rw [Table.convolveAll_foldl (fun {a b} _ _ => Table.mean_combine_mul a b) h ht]
  simp [List.prod_eq_foldl]

theorem mean_law_sampleSum (h : ∀ t ∈ first :: rest, t.IsDistribution)
    (ht : sampleSum.law (first :: rest) = .ok t) :
    t.mean = ((first :: rest).map Table.mean).prod := by
  rw [Table.sampleSumAll_foldl (fun _ hsample hcount => Table.mean_sampled hsample hcount) h ht]
  simp [List.prod_eq_foldl]

end Joint

end DiceLaw
