import DiceLaw.Proofs.Law.Signs

/-!
# Sampling in turn

A sum of samples that counts samples itself may be taken in either order: first the counts and then
the samples, or the samples of each count at once. Samples of a sum of counts are added up from the
samples of each count; so samples of a table of samples are as many samples as the sampled counts
add up to.

## Main definitions

* `Table.sampled`: the sum of a random number of samples

## Main results

* `Table.sampled_combine_add`: counts that are added
* `Table.samples_sampled`: a fixed number of sums of samples
* `Table.sampled_assoc`: sampling is associative
* `Formula.law_sampling_assoc`: so are sample-sums, of tables and of formulas
-/

namespace DiceLaw

namespace Table

variable {a b c t count sample : Table} {v : Int}

/-! ## Sums of samples -/

/-- The sum of as many samples as a count says, for counts that are not below zero. -/
def sampled (count sample : Table) : Table := count.mixture fun c => samples sample c.toNat

theorem sampleSum_eq_sampled (sample : Table) (h : ∀ c ∈ count.outcomes, 0 ≤ c) :
    sampleSum count sample = .ok (sampled count sample) :=
  sampleSum_eq_mixture sample h

theorem mem_outcomes_sampled :
    v ∈ (sampled count sample).outcomes
      ↔ ∃ c ∈ count.outcomes, v ∈ (samples sample c.toNat).outcomes :=
  mem_outcomes_mixture

theorem expectation_sampled (count sample : Table) (f : Int → Rat) :
    (sampled count sample).expectation f
      = count.expectation fun c => (samples sample c.toNat).expectation f :=
  expectation_mixture count _ f

@[simp] theorem sampled_sure (v : Int) (sample : Table) :
    sampled (sure v) sample = samples sample v.toNat := by
  refine ext_expectation (fun u => ?_) fun f => ?_
  · simp [mem_outcomes_sampled]
  · rw [expectation_sampled, expectation_sure]

/-! ## Fixed numbers -/

/-- Samples that are added to samples. -/
theorem samples_add_eq_combine (sample : Table) (m n : Nat) :
    samples sample (m + n) = combine (· + ·) (samples sample m) (samples sample n) := by
  induction n with
  | zero => rw [samples_zero, combine_comm Int.add_comm, combine_sure_left Int.zero_add, m.add_zero]
  | succ n ih =>
    rw [← Nat.add_assoc, samples_succ, ih, combine_assoc Int.add_assoc, ← samples_succ]

theorem nonneg_combine_add (ha : ∀ v ∈ a.outcomes, 0 ≤ v) (hb : ∀ v ∈ b.outcomes, 0 ≤ v) :
    ∀ v ∈ (combine (· + ·) a b).outcomes, 0 ≤ v := by
  intro v hv
  obtain ⟨x, hx, y, hy, rfl⟩ := mem_outcomes_combine.1 hv
  exact Int.add_nonneg (ha x hx) (hb y hy)

theorem nonneg_samples (h : ∀ v ∈ sample.outcomes, 0 ≤ v) (n : Nat) :
    ∀ v ∈ (samples sample n).outcomes, 0 ≤ v := by
  induction n with
  | zero => simp [samples_zero]
  | succ n ih =>
    rw [samples_succ]
    exact nonneg_combine_add ih h

theorem nonneg_sampled (h : ∀ v ∈ sample.outcomes, 0 ≤ v) :
    ∀ v ∈ (sampled count sample).outcomes, 0 ≤ v := by
  intro v hv
  obtain ⟨c, -, hv⟩ := mem_outcomes_sampled.1 hv
  exact nonneg_samples h c.toNat v hv

/-! ## Random numbers -/

/-- Samples of a sum of counts are added up from the samples of each count. -/
theorem sampled_combine_add (ha : ∀ v ∈ a.outcomes, 0 ≤ v) (hb : ∀ v ∈ b.outcomes, 0 ≤ v)
    (sample : Table) :
    sampled (combine (· + ·) a b) sample
      = combine (· + ·) (sampled a sample) (sampled b sample) := by
  have hcounts : ∀ x ∈ a.outcomes, ∀ y ∈ b.outcomes, samples sample (x + y).toNat
      = combine (· + ·) (samples sample x.toNat) (samples sample y.toNat) := by
    intro x hx y hy
    rw [Int.toNat_add (ha x hx) (hb y hy), samples_add_eq_combine]
  refine ext_expectation (fun v => ?_) fun f => ?_
  · simp only [mem_outcomes_sampled, mem_outcomes_combine]
    constructor
    · rintro ⟨_, ⟨x, hx, y, hy, rfl⟩, hv⟩
      rw [hcounts x hx y hy] at hv
      obtain ⟨u, hu, w, hw, rfl⟩ := mem_outcomes_combine.1 hv
      exact ⟨u, ⟨x, hx, hu⟩, w, ⟨y, hy, hw⟩, rfl⟩
    · rintro ⟨u, ⟨x, hx, hu⟩, w, ⟨y, hy, hw⟩, rfl⟩
      refine ⟨x + y, ⟨x, hx, y, hy, rfl⟩, ?_⟩
      rw [hcounts x hx y hy]
      exact mem_outcomes_combine.2 ⟨u, hu, w, hw, rfl⟩
  · rw [expectation_sampled, expectation_combine, expectation_combine, expectation_sampled]
    refine expectation_congr fun x hx => ?_
    -- the samples of the first count are looked at before the second count
    simp only [expectation_sampled]
    rw [expectation_swap]
    refine expectation_congr fun y hy => ?_
    rw [hcounts x hx y hy, expectation_combine]

/-- A fixed number of sums of samples is the sum of as many samples as their counts add up to. -/
theorem samples_sampled (hcount : ∀ c ∈ count.outcomes, 0 ≤ c) (sample : Table) (n : Nat) :
    samples (sampled count sample) n = sampled (samples count n) sample := by
  induction n with
  | zero => rw [samples_zero, samples_zero, sampled_sure, Int.toNat_zero, samples_zero]
  | succ n ih =>
    rw [samples_succ, ih, samples_succ, sampled_combine_add (nonneg_samples hcount n) hcount]

/-- Sampling is associative: samples of samples are as many samples as the sampled counts say. -/
theorem sampled_assoc (hb : ∀ v ∈ b.outcomes, 0 ≤ v) (a c : Table) :
    sampled (sampled a b) c = sampled a (sampled b c) := by
  refine ext_expectation (fun v => ?_) fun f => ?_
  · simp only [mem_outcomes_sampled, samples_sampled hb]
    constructor
    · rintro ⟨k, ⟨x, hx, hk⟩, hv⟩
      exact ⟨x, hx, k, hk, hv⟩
    · rintro ⟨x, hx, k, hk, hv⟩
      exact ⟨k, ⟨x, hx, hk⟩, hv⟩
  · rw [expectation_sampled, expectation_sampled, expectation_sampled]
    simp only [samples_sampled hb, expectation_sampled]

/-- Sample-sums can be grouped in either way if no count is below zero. -/
theorem exists_sampleSum_assoc (ha : ∀ v ∈ a.outcomes, 0 ≤ v) (hb : ∀ v ∈ b.outcomes, 0 ≤ v)
    (c : Table) : ∃ p q t, sampleSum a b = .ok p ∧ sampleSum b c = .ok q ∧
      sampleSum p c = .ok t ∧ sampleSum a q = .ok t := by
  refine ⟨sampled a b, sampled b c, sampled (sampled a b) c, sampleSum_eq_sampled b ha,
    sampleSum_eq_sampled c hb, sampleSum_eq_sampled c (nonneg_sampled hb), ?_⟩
  rw [sampled_assoc hb]
  exact sampleSum_eq_sampled _ ha

end Table

/-- Three tables are sampled from left to right. -/
theorem Joint.law_sampleSum_triple (a b c : Table) :
    sampleSum.law [a, b, c] = Table.sampleSum a b >>= fun p => Table.sampleSum p c := by
  show (Table.sampleSum a b >>= fun p => Table.sampleSum p c >>= pure) = _
  simp only [bind_pure]

namespace Formula

variable {f u : Formula} {a b c t : Table}

theorem law_sampleSum_eq_ok (hf : law f = .ok a) (hu : law u = .ok b)
    (h : Table.sampleSum a b = .ok t) : law (.join .sampleSum f [u]) = .ok t := by
  rw [law_pair, hf, hu]
  exact (Joint.law_sampleSum_pair a b).trans h

/-- Sample-sums are associative. Of tables, if the first two have no outcome below zero, whatever
the third is; and so of formulas, in pairs from either side and all at once. -/
theorem law_sampling_assoc :
    (∀ a b c : Table, (∀ v ∈ a.outcomes, 0 ≤ v) → (∀ v ∈ b.outcomes, 0 ≤ v) →
      ∃ p q t, Table.sampleSum a b = .ok p ∧ Table.sampleSum b c = .ok q ∧
        Table.sampleSum p c = .ok t ∧ Table.sampleSum a q = .ok t) ∧
    ∀ (f g h : Formula) (a b c : Table), law f = .ok a → law g = .ok b → law h = .ok c →
      (∀ v ∈ a.outcomes, 0 ≤ v) → (∀ v ∈ b.outcomes, 0 ≤ v) →
      ∃ t, law (.join .sampleSum (.join .sampleSum f [g]) [h]) = .ok t ∧
        law (.join .sampleSum f [.join .sampleSum g [h]]) = .ok t ∧
        law (.join .sampleSum f [g, h]) = .ok t := by
  refine ⟨fun a b c ha hb => Table.exists_sampleSum_assoc ha hb c, ?_⟩
  intro f g h a b c hf hg hh ha hb
  obtain ⟨p, q, t, hp, hq, hleft, hright⟩ := Table.exists_sampleSum_assoc ha hb c
  refine ⟨t, law_sampleSum_eq_ok (law_sampleSum_eq_ok hf hg hp) hh hleft,
    law_sampleSum_eq_ok hf (law_sampleSum_eq_ok hg hh hq) hright, ?_⟩
  have hrest : laws [g, h] = .ok [b, c] :=
    laws_cons_eq_ok.2 ⟨b, [c], hg, laws_cons_eq_ok.2 ⟨c, [], hh, rfl, rfl⟩, rfl⟩
  refine law_join_eq_ok.2 ⟨a, [b, c], hf, hrest, ?_⟩
  rw [Joint.law_sampleSum_triple, hp]
  exact hleft

/-- A coin with the faces zero and one, a die of two faces and a constant below zero. -/
theorem law_sampling_assoc_of_coin :
    (∃ p q t, Table.sampleSum (.sure 0) (.sure 2) = .ok p ∧
      Table.sampleSum (.sure 2) (.sure (-1)) = .ok q ∧
      Table.sampleSum p (.sure (-1)) = .ok t ∧ Table.sampleSum (.sure 0) q = .ok t) ∧
    ∃ t, law (.join .sampleSum (.join .sampleSum (.die ⟨0, 1, by decide⟩) [.die ⟨1, 2, by decide⟩])
        [.constant (-1)]) = .ok t ∧
      law (.join .sampleSum (.die ⟨0, 1, by decide⟩)
        [.join .sampleSum (.die ⟨1, 2, by decide⟩) [.constant (-1)]]) = .ok t ∧
      law (.join .sampleSum (.die ⟨0, 1, by decide⟩)
        [.die ⟨1, 2, by decide⟩, .constant (-1)]) = .ok t := by
  obtain ⟨htables, hformulas⟩ := law_sampling_assoc
  refine ⟨htables _ _ _ (by simp) (by simp), ?_⟩
  exact hformulas _ _ _ _ _ _ rfl rfl rfl (by decide) (by decide)

end Formula

end DiceLaw
