import DiceLaw.Proofs.Law.Assignment
import DiceLaw.Proofs.Law.Tuples
import DiceLaw.Table.Repetition

/-!
# Sums of a random number of samples

One sum of samples is grown from count to count, and what it weighs at each count is mixed. The
table that comes out is the mixture of the sums of a fixed number of samples; it weighs all lists of
outcomes by the weight of their length and by the weights of their members. Counts below zero are
refused.

## Main definitions

* `Table.samples`: the sum of a fixed number of samples
* `Table.mixture`: tables that are mixed by the weights of another table
* `Table.draws`: the lists of a fixed number of outcomes

## Main results

* `Table.samples_add`: samples that are added to a sum of samples
* `Table.expectation_samples`: a sum of samples, by the lists of outcomes
* `Table.sampleSum_eq_mixture`, `Table.sampleSum_eq_error`: when samples can be summed
* `Table.sampleSum_by_draws`: the law of a sum of a random number of samples
-/

namespace DiceLaw

namespace Table

variable {t count sample : Table} {v : Int}

/-! ## A fixed number of samples -/

/-- The sum of a fixed number of independent samples. -/
def samples (sample : Table) (n : Nat) : Table := addSamples sample n (sure 0)

/-- The lists of a fixed number of outcomes. -/
def draws (sample : Table) (n : Nat) : Finset (List Int) := tuples (List.replicate n sample)

theorem mem_draws {n : Nat} {ks : List Int} :
    ks ∈ draws sample n ↔ ks.length = n ∧ ∀ k ∈ ks, k ∈ sample.outcomes := by
  rw [draws, mem_tuples]
  induction n generalizing ks with
  | zero => cases ks <;> simp
  | succ n ih =>
    cases ks with
    | nil => simp [List.replicate_succ]
    | cons k ks =>
      rw [List.replicate_succ, List.forall₂_cons, ih, List.length_cons, List.forall_mem_cons,
        Nat.add_right_cancel_iff]
      tauto

example : draws (gather [(1, 1 / 2), (4, 1 / 2)]) 2 = {[1, 1], [1, 4], [4, 1], [4, 4]} := by
  decide

theorem addSamples_eq_foldl (sample : Table) (n : Nat) (t : Table) :
    addSamples sample n t = (List.replicate n sample).foldl (combine (· + ·)) t := by
  induction n generalizing t with
  | zero => rfl
  | succ n ih => rw [addSamples, ih, List.replicate_succ, List.foldl_cons]

/-- Samples that are added to a sum of samples make a longer sum. -/
theorem samples_add (sample : Table) (n m : Nat) :
    addSamples sample m (samples sample n) = samples sample (n + m) := by
  simp only [samples, addSamples_eq_foldl, List.replicate_add, List.foldl_append]

theorem tupleWeight_replicate {n : Nat} {ks : List Int} (h : ks.length = n) :
    tupleWeight (List.replicate n sample) ks = (ks.map sample.weight).prod := by
  subst h
  induction ks with
  | nil => rfl
  | cons k ks ih =>
    rw [tupleWeight] at ih ⊢
    rw [List.length_cons, List.replicate_succ, List.zipWith_cons_cons, List.prod_cons, ih,
      List.map_cons, List.prod_cons]

theorem mem_outcomes_samples {n : Nat} :
    v ∈ (samples sample n).outcomes ↔ ∃ ks ∈ draws sample n, ks.sum = v := by
  rw [samples, addSamples_eq_foldl, mem_outcomes_foldl_combine]
  simp [draws, List.sum_eq_foldl]

/-- The sum of samples weighs each list of outcomes by the weights of its members. -/
theorem expectation_samples (sample : Table) (n : Nat) (f : Int → Rat) :
    (samples sample n).expectation f
      = ∑ ks ∈ draws sample n, f ks.sum * (ks.map sample.weight).prod := by
  rw [samples, addSamples_eq_foldl, expectation_foldl_combine, expectation_sure]
  refine Finset.sum_congr rfl fun ks hks => ?_
  rw [tupleWeight_replicate (mem_draws.1 hks).1, List.sum_eq_foldl]

/-! ## Mixtures -/

/-- The tables of a family, each with the weight of its index. -/
def mixture (count : Table) (family : Int → Table) : Table :=
  count.entries.foldr (fun e t => (family e.1).scale e.2 + t) empty

theorem mem_outcomes_mixture {family : Int → Table} :
    v ∈ (count.mixture family).outcomes ↔ ∃ c ∈ count.outcomes, v ∈ (family c).outcomes := by
  rw [mixture, mem_outcomes_foldr_add]
  simp only [mem_outcomes_scale]
  simp [outcomes]

theorem expectation_mixture (count : Table) (family : Int → Table) (f : Int → Rat) :
    (count.mixture family).expectation f
      = count.expectation fun c => (family c).expectation f :=
  expectation_foldr_add (fun e => expectation_scale e.2 (family e.1) f) count.entries

theorem weight_mixture (count : Table) (family : Int → Table) (v : Int) :
    (count.mixture family).weight v
      = ∑ c ∈ count.outcomes.toFinset, count.weight c * (family c).weight v := by
  rw [weight_eq_expectation, expectation_mixture, expectation_eq_sum]
  refine Finset.sum_congr rfl fun c _ => ?_
  rw [weight_eq_expectation (family c), mul_comm]

/-! ## A random number of samples -/

/-- Growing one sum of samples from count to count mixes the sums of all counts. The sum at hand is
that of the count before, which is at most every count to come. -/
theorem sumSamples_eq_foldr {entries : List Entry} {done : Nat} (hascending : Ascending entries)
    (hdone : ∀ e ∈ entries, (done : Int) ≤ e.1) :
    sumSamples sample (samples sample done) done entries
      = entries.foldr (fun e t => (samples sample e.1.toNat).scale e.2 + t) empty := by
  induction entries generalizing done with
  | nil => rfl
  | cons e rest ih =>
    obtain ⟨c, w⟩ := e
    obtain ⟨hhead, hrest⟩ := List.pairwise_cons.1 hascending
    have hc : (done : Int) ≤ c := hdone _ List.mem_cons_self
    have hgrown : addSamples sample (c.toNat - done) (samples sample done)
        = samples sample c.toNat := by
      rw [samples_add]
      congr 1
      omega
    have hnext : ∀ e ∈ rest, (c.toNat : Int) ≤ e.1 := by
      intro e he
      have : c < e.1 := hhead e he
      omega
    simp only [sumSamples, hgrown, List.foldr_cons, ih hrest hnext]

/-- Counts that are not negative mix the sums of samples. -/
theorem sampleSum_eq_mixture (sample : Table) (h : ∀ c ∈ count.outcomes, 0 ≤ c) :
    sampleSum count sample = .ok (count.mixture fun c => samples sample c.toNat) := by
  have hmixture : sumSamples sample (sure 0) 0 count.entries
      = count.mixture fun c => samples sample c.toNat :=
    sumSamples_eq_foldr count.ascending fun e he => h e.1 (List.mem_map_of_mem he)
  by_cases hempty : count.outcomes = []
  · have hentries : count.entries = [] := List.map_eq_nil_iff.1 hempty
    simp [sampleSum, mixture, hentries]
  · obtain ⟨⟨m, w⟩, hhead, hm, -⟩ := exists_least hempty
    simp only [sampleSum, hhead]
    rw [if_neg (Int.not_lt.2 (h m hm)), hmixture]

/-- A count below zero is refused, and the least one is named. -/
theorem sampleSum_eq_error (sample : Table) (h : ∃ c ∈ count.outcomes, c < 0) :
    ∃ m ∈ count.outcomes, (∀ c ∈ count.outcomes, m ≤ c) ∧
      sampleSum count sample = .error (.negativeCount m) := by
  obtain ⟨c, hc, hneg⟩ := h
  obtain ⟨⟨m, w⟩, hhead, hm, hleast⟩ := exists_least (List.ne_nil_of_mem hc)
  refine ⟨m, hm, hleast, ?_⟩
  simp only [sampleSum, hhead]
  rw [if_pos (Int.lt_of_le_of_lt (hleast c hc) hneg)]

/-- Where samples are summed, no count is below zero. -/
theorem nonneg_of_sampleSum (h : sampleSum count sample = .ok t) :
    ∀ c ∈ count.outcomes, 0 ≤ c := by
  intro c hc
  by_contra hneg
  obtain ⟨m, -, -, herror⟩ := sampleSum_eq_error sample ⟨c, hc, Int.not_le.1 hneg⟩
  rw [herror] at h
  cases h

/-! ## The law -/

/-- The law of a sum of as many samples as a count says. Each weight is the sum over the counts of
the weight of the count, times the sum over the lists of that many outcomes that add up to the
number of the products of their weights; the outcomes are all sums of such lists. If a count is
below zero, the least one is refused, in whatever order the counts are given. -/
theorem sampleSum_by_draws (sample : Table) :
    (∀ count : Table, (∀ c ∈ count.outcomes, 0 ≤ c) →
      ∃ t, sampleSum count sample = .ok t ∧ ∀ v,
        (v ∈ t.outcomes ↔ ∃ c ∈ count.outcomes, ∃ ks : List Int,
          ks.length = c ∧ (∀ k ∈ ks, k ∈ sample.outcomes) ∧ ks.sum = v) ∧
        t.weight v = ∑ c ∈ count.outcomes.toFinset, count.weight c *
          ∑ ks ∈ draws sample c.toNat with ks.sum = v, (ks.map sample.weight).prod) ∧
    (∀ count : Table, (∃ c ∈ count.outcomes, c < 0) →
      ∃ m ∈ count.outcomes, (∀ c ∈ count.outcomes, m ≤ c) ∧
        sampleSum count sample = .error (.negativeCount m)) ∧
    ∀ given : List Entry, (∃ e ∈ given, e.1 < 0) →
      ∃ m ∈ given.map (·.1), (∀ e ∈ given, m ≤ e.1) ∧
        sampleSum (ofAssignments given) sample = .error (.negativeCount m) := by
  refine ⟨fun count hcount => ?_, fun count h => sampleSum_eq_error sample h, fun given h => ?_⟩
  · refine ⟨_, sampleSum_eq_mixture sample hcount, fun v => ⟨?_, ?_⟩⟩
    · rw [mem_outcomes_mixture]
      refine exists_congr fun c => and_congr_right fun hc => ?_
      have hlength : ∀ ks : List Int, ks.length = c.toNat ↔ (ks.length : Int) = c := by
        intro ks
        have := hcount c hc
        omega
      simp only [mem_outcomes_samples, mem_draws, hlength, and_assoc]
    · rw [weight_mixture]
      refine Finset.sum_congr rfl fun c _ => ?_
      rw [weight_eq_sum_cases (expectation_samples sample c.toNat)]
  · obtain ⟨e, he, hneg⟩ := h
    have hmem : ∀ {v}, v ∈ (ofAssignments given).outcomes ↔ v ∈ given.map (·.1) :=
      mem_outcomes_ofAssignments
    obtain ⟨m, hm, hleast, herror⟩ :=
      sampleSum_eq_error sample ⟨e.1, hmem.2 (List.mem_map_of_mem he), hneg⟩
    exact ⟨m, hmem.1 hm, fun d hd => hleast d.1 (hmem.2 (List.mem_map_of_mem hd)), herror⟩

/-- No coin or two coins with the faces one and two, the latter three times as often, add up to
three with a weight of three eighths. Of the counts three, minus one and minus two, minus two is
refused. -/
theorem sampleSum_by_draws_of_coin :
    (∃ t, sampleSum (gather [(0, 1 / 4), (2, 3 / 4)]) (gather [(1, 1 / 2), (2, 1 / 2)]) = .ok t ∧
      t.weight 3 = 3 / 8) ∧
    sampleSum (ofAssignments [(3, 1 / 2), (-1, 1 / 4), (-2, 1 / 4)])
      (gather [(1, 1 / 2), (2, 1 / 2)]) = .error (.negativeCount (-2)) := by
  constructor
  · obtain ⟨t, ht, hlaw⟩ := (sampleSum_by_draws (gather [(1, 1 / 2), (2, 1 / 2)])).1
      (gather [(0, 1 / 4), (2, 3 / 4)]) (by decide)
    refine ⟨t, ht, (hlaw 3).2.trans ?_⟩
    decide +kernel
  · obtain ⟨m, hm, hleast, herror⟩ := (sampleSum_by_draws (gather [(1, 1 / 2), (2, 1 / 2)])).2.2
      [(3, 1 / 2), (-1, 1 / 4), (-2, 1 / 4)] (by decide)
    have hle : m ≤ -2 := hleast (-2, 1 / 4) (by simp)
    have hm2 : m = -2 := by
      simp only [List.map_cons, List.map_nil, List.mem_cons, List.not_mem_nil, or_false] at hm
      omega
    rw [herror, hm2]

end Table

end DiceLaw
