import DiceLaw.Proofs.Law.Probability
import Mathlib.Tactic.Linarith
import Mathlib.Tactic.Positivity

/-!
# Moments of tables

Sums of independent outcomes add their means and their variances, and products multiply their
second moments. A product with a count has the mean of as many samples, but spreads further: one
outcome is taken over and over, where samples are drawn anew. The two are the same only if nothing
is drawn twice or every draw is the same.

## Main definitions

* `Table.mean`, `Table.square`, `Table.variance`: the first two moments

## Main results

* `Table.mean_samples`, `Table.square_samples`: a fixed number of samples
* `Table.IsDistribution.variance_pos`: two outcomes make a spread
* `Table.combine_mul_eq_mixture_iff`: when a product is a sum of samples
-/

namespace DiceLaw

namespace Table

variable {t a b count sample : Table} {v k l : Int}

/-! ## Expectations of distributions -/

theorem IsDistribution.expectation_const (h : t.IsDistribution) (c : Rat) :
    (t.expectation fun _ => c) = c := h.isProbability.expectation_const c

theorem IsDistribution.weight_pos (h : t.IsDistribution) (hv : v ∈ t.outcomes) :
    0 < t.weight v := by
  obtain ⟨w, hw⟩ := mem_outcomes.1 hv
  rw [weight_of_mem hw]
  exact h.positive _ hw

/-- What is never negative, and positive at one outcome, has a positive expectation. -/
theorem IsDistribution.expectation_pos (h : t.IsDistribution) {f : Int → Rat}
    (hnonneg : ∀ v ∈ t.outcomes, 0 ≤ f v) (hv : v ∈ t.outcomes) (hpos : 0 < f v) :
    0 < t.expectation f := by
  rw [expectation_eq_sum]
  refine Finset.sum_pos' (fun u hu => ?_) ⟨v, List.mem_toFinset.2 hv, ?_⟩
  · have hu := List.mem_toFinset.1 hu
    exact mul_nonneg (hnonneg u hu) (h.weight_pos hu).le
  · exact mul_pos hpos (h.weight_pos hv)

/-- A distribution with one outcome is sure of it. -/
theorem IsDistribution.eq_sure (h : t.IsDistribution) (hk : k ∈ t.outcomes)
    (hall : ∀ l ∈ t.outcomes, l = k) : t = sure k := by
  refine ext_expectation (fun v => ?_) fun f => ?_
  · rw [outcomes_sure, List.mem_singleton]
    constructor
    · exact hall v
    · rintro rfl
      exact hk
  · rw [expectation_sure, ← h.expectation_const (f k)]
    exact expectation_congr fun v hv => by rw [hall v hv]

/-! ## Moments -/

/-- The sum of the outcomes, each times its weight. -/
def mean (t : Table) : Rat := t.expectation fun v => v

/-- The sum of the squared outcomes, each times its weight. -/
def square (t : Table) : Rat := t.expectation fun v => (v : Rat) ^ 2

/-- The sum of the squared distances from the mean, each times its weight. -/
def variance (t : Table) : Rat := t.expectation fun v => ((v : Rat) - t.mean) ^ 2

theorem IsProbability.variance_eq (h : t.IsProbability) :
    t.variance = t.square - t.mean ^ 2 := by
  have hexpand : ∀ v : Int, ((v : Rat) - t.mean) ^ 2
      = ((v : Rat) ^ 2 + (-2 * t.mean) * v) + t.mean ^ 2 := by
    intro v
    ring
  simp only [variance, hexpand]
  rw [expectation_add_fun, expectation_add_fun, expectation_const_mul, h.expectation_const,
    ← square, ← mean]
  ring

theorem IsDistribution.variance_eq (h : t.IsDistribution) :
    t.variance = t.square - t.mean ^ 2 := h.isProbability.variance_eq

/-- Two outcomes are not both the mean. -/
theorem IsDistribution.variance_pos (h : t.IsDistribution) (hk : k ∈ t.outcomes)
    (hl : l ∈ t.outcomes) (hne : k ≠ l) : 0 < t.variance := by
  have hnonneg : ∀ v ∈ t.outcomes, 0 ≤ ((v : Rat) - t.mean) ^ 2 := fun v _ => sq_nonneg _
  by_cases hmean : (k : Rat) = t.mean
  · refine h.expectation_pos hnonneg hl ?_
    have hlmean : (l : Rat) - t.mean ≠ 0 := by
      rw [← hmean, sub_ne_zero]
      exact_mod_cast hne.symm
    positivity
  · have hkmean : (k : Rat) - t.mean ≠ 0 := sub_ne_zero.2 hmean
    refine h.expectation_pos hnonneg hk ?_
    positivity

/-- A count that may be above one has a mean below its second moment. -/
theorem IsDistribution.mean_lt_square (h : t.IsDistribution) (hnonneg : ∀ v ∈ t.outcomes, 0 ≤ v)
    (hk : k ∈ t.outcomes) (hmore : 1 < k) : t.mean < t.square := by
  have hfun : ∀ v : Int, (v : Rat) ^ 2 = (v : Rat) * (v - 1) + v := by
    intro v
    ring
  have hsplit : t.square = (t.expectation fun v => (v : Rat) * (v - 1)) + t.mean := by
    rw [square, mean, ← expectation_add_fun]
    simp only [hfun]
  rw [hsplit]
  -- no count lies between zero and one
  refine lt_add_of_pos_left _ (h.expectation_pos (fun v hv => ?_) hk ?_)
  · have hroot : 0 ≤ v * (v - 1) := by
      rcases (hnonneg v hv).eq_or_lt with rfl | hpos
      · simp
      · exact mul_nonneg hpos.le (by omega)
    exact_mod_cast hroot
  · have hroot : 0 < k * (k - 1) := mul_pos (by omega) (by omega)
    exact_mod_cast hroot

/-! ## Sums and products -/

theorem mean_combine_add (ha : a.IsDistribution) (hb : b.IsDistribution) :
    (combine (· + ·) a b).mean = a.mean + b.mean := by
  simp only [mean, expectation_combine, Int.cast_add, expectation_add_fun, ha.expectation_const,
    hb.expectation_const]

theorem square_combine_add (ha : a.IsDistribution) (hb : b.IsDistribution) :
    (combine (· + ·) a b).square = a.square + 2 * a.mean * b.mean + b.square := by
  have hexpand : ∀ x y : Int, (((x + y : Int) : Rat)) ^ 2
      = ((x : Rat) ^ 2 + (2 * x) * y) + (y : Rat) ^ 2 := by
    intro x y
    push_cast
    ring
  have hinner : ∀ x : Int, (b.expectation fun y => (((x + y : Int) : Rat)) ^ 2)
      = ((x : Rat) ^ 2 + (2 * b.mean) * x) + b.square := by
    intro x
    simp only [hexpand]
    rw [expectation_add_fun, expectation_add_fun, hb.expectation_const, expectation_const_mul,
      ← square, ← mean]
    ring
  rw [square, expectation_combine]
  simp only [hinner]
  rw [expectation_add_fun, expectation_add_fun, expectation_const_mul, ha.expectation_const,
    ← square, ← mean]
  ring

theorem square_combine_mul (a b : Table) :
    (combine (· * ·) a b).square = a.square * b.square :=
  expectation_combine_mul (fun x y => by rw [Int.cast_mul, mul_pow]) a b

/-- Zero times whatever comes out is zero. -/
theorem combine_sure_zero (h : t.IsDistribution) :
    combine (· * ·) (sure 0) t = sure 0 := by
  obtain ⟨k, hk⟩ := List.exists_mem_of_ne_nil _ h.outcomes_ne_nil
  refine ((isDistribution_sure 0).combine (· * ·) h).eq_sure ?_ fun v hv => ?_
  · exact mem_outcomes_combine.2 ⟨0, List.mem_cons_self, k, hk, Int.zero_mul k⟩
  · obtain ⟨x, hx, y, -, rfl⟩ := mem_outcomes_combine.1 hv
    rw [List.mem_singleton.1 hx]
    exact Int.zero_mul y

/-! ## Samples -/

theorem samples_zero (sample : Table) : samples sample 0 = sure 0 := rfl

theorem samples_succ (sample : Table) (n : Nat) :
    samples sample (n + 1) = combine (· + ·) (samples sample n) sample :=
  (samples_add sample n 1).symm

theorem mean_samples (h : sample.IsDistribution) (n : Nat) :
    (samples sample n).mean = n * sample.mean := by
  induction n with
  | zero => simp [samples_zero, mean]
  | succ n ih =>
    rw [samples_succ, mean_combine_add (h.samples n) h, ih]
    push_cast
    ring

theorem square_samples (h : sample.IsDistribution) (n : Nat) :
    (samples sample n).square = n * sample.variance + (n * sample.mean) ^ 2 := by
  induction n with
  | zero => simp [samples_zero, square]
  | succ n ih =>
    rw [samples_succ, square_combine_add (h.samples n) h, ih, mean_samples h, h.variance_eq]
    push_cast
    ring

/-- A sum of a random number of samples spreads with the samples and with their number. -/
theorem square_mixture_samples (h : sample.IsDistribution) (hcount : ∀ c ∈ count.outcomes, 0 ≤ c) :
    (count.mixture fun c => samples sample c.toNat).square
      = count.mean * sample.variance + count.square * sample.mean ^ 2 := by
  have hinner : ∀ c ∈ count.outcomes, (samples sample c.toNat).square
      = sample.variance * c + sample.mean ^ 2 * (c : Rat) ^ 2 := by
    intro c hc
    have hcast : ((c.toNat : Nat) : Rat) = c := by
      exact_mod_cast Int.toNat_of_nonneg (hcount c hc)
    rw [square_samples h, hcast]
    ring
  rw [square, expectation_mixture]
  refine (expectation_congr hinner).trans ?_
  rw [expectation_add_fun, expectation_const_mul, expectation_const_mul, ← mean, ← square]
  ring

/-! ## Products and sums of samples -/

theorem samples_sure (k : Int) (n : Nat) : samples (sure k) n = sure (n * k) := by
  induction n with
  | zero => simp [samples_zero]
  | succ n ih =>
    rw [samples_succ, ih, combine_sure]
    congr 1
    push_cast
    ring

theorem samples_one (sample : Table) : samples sample 1 = sample := by
  rw [samples_succ, samples_zero, combine_sure_left fun y => Int.zero_add y]

/-- Where each count of samples is a multiple, the sum of samples is a product. -/
theorem mixture_eq_combine_mul
    (h : ∀ c ∈ count.outcomes, samples sample c.toNat = combine (· * ·) (sure c) sample) :
    count.mixture (fun c => samples sample c.toNat) = combine (· * ·) count sample := by
  refine ext_expectation (fun v => ?_) fun f => ?_
  · rw [mem_outcomes_mixture, mem_outcomes_combine]
    refine exists_congr fun c => and_congr_right fun hc => ?_
    simp [h c hc, mem_outcomes_combine]
  · rw [expectation_mixture, expectation_combine]
    refine expectation_congr fun c hc => ?_
    rw [h c hc, expectation_combine, expectation_sure]

/-- One outcome times a count is the sum of that many samples only if no count is above one, or if
there is one outcome alone. -/
theorem combine_mul_eq_mixture_iff (hs : count.IsDistribution) (ht : sample.IsDistribution)
    (hcount : ∀ c ∈ count.outcomes, 0 ≤ c) :
    combine (· * ·) count sample = count.mixture (fun c => samples sample c.toNat) ↔
      (∀ c ∈ count.outcomes, c ≤ 1) ∨
        ∀ k ∈ sample.outcomes, ∀ l ∈ sample.outcomes, k = l := by
  constructor
  · intro heq
    by_contra hne
    rw [not_or] at hne
    push Not at hne
    obtain ⟨⟨c, hc, hmore⟩, k, hk, l, hl, hkl⟩ := hne
    -- the product has the larger second moment: samples spread by the mean of the count, and the
    -- product by its second moment
    have hsquares := congrArg square heq
    rw [square_combine_mul, square_mixture_samples ht hcount] at hsquares
    have hvariance := ht.variance_pos hk hl hkl
    have hspread : count.square * sample.variance = count.mean * sample.variance := by
      rw [ht.variance_eq] at hsquares ⊢
      linarith
    have hcounts := mul_right_cancel₀ hvariance.ne' hspread
    exact (hs.mean_lt_square hcount hc hmore).ne' hcounts
  · intro h
    refine (mixture_eq_combine_mul fun c hc => ?_).symm
    have h0 := hcount c hc
    rcases h with hone | hall
    · have h1 := hone c hc
      obtain rfl | rfl : c = 0 ∨ c = 1 := by omega
      · -- no sample adds up to zero
        exact (combine_sure_zero ht).symm
      · rw [combine_sure_left fun y => Int.one_mul y]
        exact samples_one sample
    · obtain ⟨k, hk⟩ := List.exists_mem_of_ne_nil _ ht.outcomes_ne_nil
      rw [ht.eq_sure hk fun l hl => hall l hl k hk, samples_sure, combine_sure,
        Int.toNat_of_nonneg h0]

end Table

end DiceLaw
