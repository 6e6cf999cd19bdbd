import DiceLaw.Proofs.Law.Mirror
import DiceLaw.Proofs.Law.Moments

/-!
# Minus one among the parts of a joint

Minus one in a product may go with any other factor. It may not be taken out of a sampling: minus
one that is sampled, times an operand, takes one outcome of the operand as often as the count says,
where samples of the negated operand take as many outcomes. The laws differ wherever more than one
sample of something uncertain is asked for.

## Main results

* `Formula.law_minus_regroup`: minus one among the factors of a product
* `Formula.law_sampled_minus_ne_iff`: when minus one cannot be taken out of a sampling
-/

namespace DiceLaw

namespace Table

/-! ## Sampling minus one -/

theorem IsDistribution.mirror {t : Table} (h : t.IsDistribution) : t.mirror.IsDistribution := by
  rw [← combine_minus_one]
  exact (isDistribution_sure (-1)).combine _ h

/-- The least count is refused if it is below zero, whatever is sampled. -/
theorem sampleSum_of_least {count : Table} {m : Int} (hm : m ∈ count.outcomes) (hneg : m < 0)
    (hleast : ∀ c ∈ count.outcomes, m ≤ c) (sample : Table) :
    sampleSum count sample = .error (.negativeCount m) := by
  obtain ⟨k, hk, hbelow, herror⟩ := sampleSum_eq_error sample ⟨m, hm, hneg⟩
  rw [herror, Int.le_antisymm (hbelow m hm) (hleast k hk)]

/-- A sampled minus one counts downwards. -/
theorem sampleSum_minus_one {count : Table} (h : ∀ c ∈ count.outcomes, 0 ≤ c) :
    sampleSum count (sure (-1)) = .ok (combine (· * ·) count (sure (-1))) := by
  rw [sampleSum_eq_mixture _ h, mixture_eq_combine_mul]
  intro c hc
  rw [samples_sure, combine_sure, Int.toNat_of_nonneg (h c hc)]

/-- A sampled minus one, times a table, is samples of the mirrored table only if at most one is
asked for, or if the table has one outcome alone. -/
theorem combine_sampled_minus_eq_iff {s t : Table} (hs : s.IsDistribution) (ht : t.IsDistribution)
    (hcount : ∀ c ∈ s.outcomes, 0 ≤ c) :
    combine (· * ·) (combine (· * ·) s (sure (-1))) t
        = s.mixture (fun c => samples t.mirror c.toNat) ↔
      (∀ c ∈ s.outcomes, c ≤ 1) ∨ ∀ k ∈ t.outcomes, ∀ l ∈ t.outcomes, k = l := by
  rw [combine_assoc Int.mul_assoc, combine_minus_one,
    combine_mul_eq_mixture_iff hs ht.mirror hcount]
  refine or_congr_right ?_
  simp only [mem_outcomes_mirror]
  constructor
  · intro h k hk l hl
    exact neg_inj.1 (h (-k) (by rwa [neg_neg]) (-l) (by rwa [neg_neg]))
  · intro h k hk l hl
    exact neg_inj.1 (h (-k) hk (-l) hl)

end Table

namespace Joint

/-- Two tables are always multiplied. -/
theorem law_product_pair (a b : Table) :
    product.law [a, b] = .ok (Table.combine (· * ·) a b) :=
  Table.foldlM_convolve_eq_ok (by decide) [b] a

theorem law_sampleSum_pair (count sample : Table) :
    sampleSum.law [count, sample] = Table.sampleSum count sample :=
  bind_pure _

end Joint

namespace Formula

/-! ## Joints of two parts -/

theorem law_pair (joint : Joint) (f u : Formula) :
    law (.join joint f [u]) = law f >>= fun a => law u >>= fun t => joint.law [a, t] := by
  simp only [law, laws]
  cases law f with
  | error e => rfl
  | ok a => cases law u <;> rfl

/-- Minus one among the factors of a product goes with the factor behind it. -/
theorem law_minus_regroup (f u : Formula) :
    law (.join .product f [.constant (-1), u])
      = law (.join .product f [.join .product (.constant (-1)) [u]]) := by
  have htriple : ∀ a t : Table, Joint.product.law [a, .sure (-1), t]
      = .ok (Table.combine (· * ·) a (Table.combine (· * ·) (.sure (-1)) t)) := by
    intro a t
    rw [← Table.combine_assoc Int.mul_assoc]
    exact Table.foldlM_convolve_eq_ok (by decide) [.sure (-1), t] a
  rw [law_pair, law_pair]
  simp only [law, laws, Joint.law_product_pair]
  cases law f with
  | error e => rfl
  | ok a =>
    cases law u with
    | error e => rfl
    | ok t => exact htriple a t

theorem law_join_congr (joint : Joint) {f g : Formula} (h : law f = law g) (first : Formula) :
    law (.join joint first [f]) = law (.join joint first [g]) := by
  rw [law_pair, law_pair, h]

/-! ## Minus one that is sampled -/

theorem law_sampled_minus (f u : Formula) :
    law (.join .product (.join .sampleSum f [.constant (-1)]) [u]) = do
      let s ← law f
      let p ← Table.sampleSum s (.sure (-1))
      let t ← law u
      return Table.combine (· * ·) p t := by
  rw [law_pair, law_pair, bind_assoc]
  simp only [Joint.law_sampleSum_pair, Joint.law_product_pair]
  rfl

theorem law_sampled_negated (f u : Formula) :
    law (.join .sampleSum f [.join .product (.constant (-1)) [u]])
      = law f >>= fun s => law u >>= fun t => Table.sampleSum s t.mirror := by
  rw [law_pair]
  simp only [Joint.law_sampleSum_pair, law_negated, law_lone]
  cases law f with
  | error e => rfl
  | ok s => cases law u <;> rfl

/-- Of counts that are not below zero, two samples or more of several outcomes make a difference. -/
theorem law_sampled_minus_ne_iff_of_nonneg {f u : Formula} {s : Table} (hf : law f = .ok s)
    (hcount : ∀ c ∈ s.outcomes, 0 ≤ c) :
    law (.join .product (.join .sampleSum f [.constant (-1)]) [u])
        ≠ law (.join .sampleSum f [.join .product (.constant (-1)) [u]]) ↔
      (∃ c ∈ s.outcomes, 2 ≤ c) ∧
        ∃ t, law u = .ok t ∧ ∃ k ∈ t.outcomes, ∃ l ∈ t.outcomes, k ≠ l := by
  rw [law_sampled_minus, law_sampled_negated, hf]
  simp only [bind, Except.bind, pure, Except.pure]
  rw [Table.sampleSum_minus_one hcount]
  cases hu : law u with
  | error e => simp
  | ok t =>
    -- both laws are there, and they are compared as tables
    have hs := isDistribution_law f hf
    have hiff := Table.combine_sampled_minus_eq_iff hs (isDistribution_law u hu) hcount
    simp only [Table.sampleSum_eq_mixture _ hcount, ne_eq, Except.ok.injEq, hiff,
      exists_eq_left', not_or, not_forall, exists_prop, Int.not_le]
    exact Iff.rfl

/-- A least count below zero is refused in both, but only in one of them is the operand looked at
first. -/
theorem law_sampled_minus_ne_iff_of_neg {f u : Formula} {s : Table} {m : Int} (hf : law f = .ok s)
    (hm : m ∈ s.outcomes) (hneg : m < 0) (hleast : ∀ c ∈ s.outcomes, m ≤ c) :
    law (.join .product (.join .sampleSum f [.constant (-1)]) [u])
        ≠ law (.join .sampleSum f [.join .product (.constant (-1)) [u]]) ↔
      ∃ e, law u = .error e ∧ e ≠ .negativeCount m := by
  have hrefused := Table.sampleSum_of_least hm hneg hleast
  rw [law_sampled_minus, law_sampled_negated, hf]
  simp only [bind, Except.bind, hrefused]
  cases law u with
  | error e => simp [eq_comm]
  | ok t => simp

/-- Minus one that is sampled, times an operand, has another law than samples of the negated operand
where two rolls or more of several outcomes may be asked for; and another failure where a count is
below zero and the operand fails as well. -/
theorem law_sampled_minus_ne_iff (f u : Formula) :
    law (.join .product (.join .sampleSum f [.constant (-1)]) [u])
        ≠ law (.join .sampleSum f [.join .product (.constant (-1)) [u]]) ↔
      ∃ s, law f = .ok s ∧
        (((∀ c ∈ s.outcomes, 0 ≤ c) ∧ (∃ c ∈ s.outcomes, 2 ≤ c) ∧
            ∃ t, law u = .ok t ∧ ∃ k ∈ t.outcomes, ∃ l ∈ t.outcomes, k ≠ l) ∨
          ∃ m ∈ s.outcomes, m < 0 ∧ (∀ c ∈ s.outcomes, m ≤ c) ∧
            ∃ e, law u = .error e ∧ e ≠ .negativeCount m) := by
  cases hf : law f with
  | error e =>
    -- neither is had without the law of the count
    rw [law_sampled_minus, law_sampled_negated, hf]
    simp [bind, Except.bind]
  | ok s =>
    simp only [Except.ok.injEq, exists_eq_left']
    by_cases hcount : ∀ c ∈ s.outcomes, 0 ≤ c
    · have hnone : ¬ ∃ m ∈ s.outcomes, m < 0 ∧ (∀ c ∈ s.outcomes, m ≤ c) ∧
          ∃ e, law u = .error e ∧ e ≠ .negativeCount m := by
        rintro ⟨m, hm, hneg, -⟩
        exact absurd (hcount m hm) (Int.not_le.2 hneg)
      rw [law_sampled_minus_ne_iff_of_nonneg hf hcount, or_iff_left hnone, and_iff_right hcount]
    · have hsome : ∃ c ∈ s.outcomes, c < 0 := by
        simpa using hcount
      obtain ⟨c, hc, hcneg⟩ := hsome
      obtain ⟨⟨m, _⟩, -, hm, hleast⟩ := Table.exists_least (List.ne_nil_of_mem hc)
      have hneg : m < 0 := Int.lt_of_le_of_lt (hleast c hc) hcneg
      rw [law_sampled_minus_ne_iff_of_neg hf hm hneg hleast, or_iff_right fun h => hcount h.1]
      constructor
      · rintro ⟨e, hu, hne⟩
        exact ⟨m, hm, hneg, hleast, e, hu, hne⟩
      · rintro ⟨k, hk, -, hbelow, h⟩
        rwa [Int.le_antisymm (hbelow m hm) (hleast k hk)] at h

end Formula

end DiceLaw
