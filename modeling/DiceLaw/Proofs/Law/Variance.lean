import DiceLaw.Proofs.Law.Mean

/-!
# Variances of laws

Sums of independent outcomes add their variances. Products have no such rule for variances, but they
multiply the second moments, which are the variances together with the squared means. The variance
of a random number of samples comes from the samples and from their number, so that it is composed
together with the mean.

## Main definitions

* `Moments`, `Table.moments`: mean and variance together
* `Moments.sampled`: the moments of a random number of samples

## Main results

* `Die.variance_law`: the faces of a die
* `Table.moments_sampled`: a random number of samples
* `Joint.variance_law_sum`, `Joint.variance_law_product`, `Joint.moments_law_sampleSum`: joined
  parts
-/

namespace DiceLaw

/-- A mean and a variance. -/
structure Moments where
  mean : Rat
  variance : Rat

/-- The moments of as many samples as a count says. The samples spread by themselves, and so does
their number. -/
def Moments.sampled (count sample : Moments) : Moments where
  mean := count.mean * sample.mean
  variance := count.mean * sample.variance + count.variance * sample.mean ^ 2

namespace Table

variable {t a b count sample : Table}

/-- The mean and the variance of a table. -/
def moments (t : Table) : Moments := ⟨t.mean, t.variance⟩

/-- A sure outcome does not spread. -/
@[simp] theorem variance_sure (v : Int) : (sure v).variance = 0 := by
  rw [variance, expectation_sure, mean_sure, sub_self, zero_pow two_ne_zero]

theorem IsDistribution.square_eq (h : t.IsDistribution) : t.square = t.variance + t.mean ^ 2 := by
  rw [h.variance_eq, sub_add_cancel]

theorem variance_combine_add (ha : a.IsDistribution) (hb : b.IsDistribution) :
    (combine (· + ·) a b).variance = a.variance + b.variance := by
  rw [(ha.combine _ hb).variance_eq, square_combine_add ha hb, mean_combine_add ha hb,
    ha.variance_eq, hb.variance_eq]
  ring

/-- A random number of samples spreads with the samples and with the number. -/
theorem variance_sampled (hcount : count.IsDistribution) (hsample : sample.IsDistribution)
    (hnonneg : ∀ c ∈ count.outcomes, 0 ≤ c) :
    (sampled count sample).variance
      = count.mean * sample.variance + count.variance * sample.mean ^ 2 := by
  have hsampled : (sampled count sample).IsDistribution :=
    hcount.mixture fun c => hsample.samples c.toNat
  have hsquare : (sampled count sample).square
      = count.mean * sample.variance + count.square * sample.mean ^ 2 :=
    square_mixture_samples hsample hnonneg
  rw [hsampled.variance_eq, hsquare, mean_sampled hsample hnonneg, hcount.square_eq]
  ring

theorem moments_sampled (hcount : count.IsDistribution) (hsample : sample.IsDistribution)
    (hnonneg : ∀ c ∈ count.outcomes, 0 ≤ c) :
    (sampled count sample).moments = count.moments.sampled sample.moments := by
  rw [moments, mean_sampled hsample hnonneg, variance_sampled hcount hsample hnonneg]
  rfl

end Table

/-! ## Dice -/

theorem sum_sq_consecutive (a : Rat) (n : Nat) :
    ∑ i ∈ Finset.range n, (a + i) ^ 2 = n * ((a + (n - 1) / 2) ^ 2 + (n ^ 2 - 1) / 12) := by
  induction n with
  | zero => simp
  | succ n ih =>
    rw [Finset.sum_range_succ, ih]
    push_cast
    ring

/-- The variance of a die depends on the number of its faces alone. -/
theorem Die.variance_law (d : Die) : d.law.variance = ((d.hi - d.lo + 1) ^ 2 - 1) / 12 := by
  have hsquare : d.law.square
      = (d.lo + (d.size - 1) / 2 : Rat) ^ 2 + ((d.size : Rat) ^ 2 - 1) / 12 := by
    refine expectation_law_of_sum ?_
    simp only [Int.cast_add, Int.cast_natCast]
    exact sum_sq_consecutive d.lo d.size
  rw [d.isDistribution_law.variance_eq, hsquare, d.mean_law, d.cast_size]
  ring

/-! ## Joints -/

namespace Joint

variable {first t : Table} {rest : List Table}

theorem variance_law_sum (h : ∀ t ∈ first :: rest, t.IsDistribution)
    (ht : sum.law (first :: rest) = .ok t) :
    t.variance = ((first :: rest).map Table.variance).sum := by
  rw [Table.convolveAll_foldl Table.variance_combine_add h ht]
  simp [List.sum_eq_foldl]

theorem square_law_product (h : ∀ t ∈ first :: rest, t.IsDistribution)
    (ht : product.law (first :: rest) = .ok t) :
    t.square = ((first :: rest).map Table.square).prod := by
  rw [Table.convolveAll_foldl (fun {a b} _ _ => Table.square_combine_mul a b) h ht]
  simp [List.prod_eq_foldl]

/-- A product multiplies the second moments, and the means. -/
theorem variance_law_product (h : ∀ t ∈ first :: rest, t.IsDistribution)
    (ht : product.law (first :: rest) = .ok t) :
    t.variance = ((first :: rest).map fun t => t.variance + t.mean ^ 2).prod
      - ((first :: rest).map fun t => t.mean ^ 2).prod := by
  have hdistribution : t.IsDistribution := isDistribution_law h ht
  have hsquares : (first :: rest).map Table.square
      = (first :: rest).map fun t => t.variance + t.mean ^ 2 :=
    List.map_congr_left fun t ht => (h t ht).square_eq
  have hmeans : ((first :: rest).map Table.mean).prod ^ 2
      = ((first :: rest).map fun t => t.mean ^ 2).prod := by
    simp only [sq, List.prod_map_mul]
  rw [hdistribution.variance_eq, square_law_product h ht, mean_law_product h ht, hsquares, hmeans]

/-- Samples of samples are composed from left to right. -/
theorem moments_law_sampleSum (h : ∀ t ∈ first :: rest, t.IsDistribution)
    (ht : sampleSum.law (first :: rest) = .ok t) :
    t.moments = (rest.map Table.moments).foldl Moments.sampled first.moments :=
  Table.sampleSumAll_foldl Table.moments_sampled h ht

end Joint

end DiceLaw
