import DiceLaw.Proofs.Law.Sampling
import DiceLaw.Proofs.Notation.SignedOperand

/-!
# Sums of counts

As many samples as two counts say together are as many samples as each of them says, added up. On
one side the counts are added first, and one sum of samples is grown over all that they add up to;
on the other side each count has samples of its own. What can be sampled does not matter, and both
sides fail where it has no law; only the counts must not be below zero.

## Main results

* `Table.exists_sampleSum_of_counts`: tables
* `Formula.law_sampleSum_of_counts`: formulas
* `Formula.ofText_sampleSum_of_counts`: texts, with the counts in brackets and one by one
* `Formula.law_counts_add`: all of them
-/

namespace DiceLaw

/-! ## Tables -/

/-- The samples of a sum of counts are the sum of the samples of each count. -/
theorem Table.exists_sampleSum_of_counts {a b : Table} (ha : ∀ v ∈ a.outcomes, 0 ≤ v)
    (hb : ∀ v ∈ b.outcomes, 0 ≤ v) (sample : Table) :
    ∃ n p q t, convolve .sum a b = .ok n ∧ sampleSum a sample = .ok p ∧
      sampleSum b sample = .ok q ∧ sampleSum n sample = .ok t ∧ convolve .sum p q = .ok t := by
  have hsum : ∀ a b : Table, convolve .sum a b = .ok (combine (· + ·) a b) :=
    convolve_eq_ok (by decide)
  refine ⟨_, _, _, _, hsum a b, sampleSum_eq_sampled sample ha, sampleSum_eq_sampled sample hb,
    sampleSum_eq_sampled sample (nonneg_combine_add ha hb), ?_⟩
  rw [hsum, sampled_combine_add ha hb]

/-- Two tables are always summed. -/
theorem Joint.law_sum_pair (a b : Table) : sum.law [a, b] = .ok (Table.combine (· + ·) a b) :=
  law_sum a [b]

namespace Formula

variable {f g h : Formula} {a b : Table}

/-! ## Formulas -/

/-- Two counts in front of a sampling may be added, whether what is sampled has a law or not. -/
theorem law_sampleSum_of_counts (hf : law f = .ok a) (hg : law g = .ok b)
    (ha : ∀ v ∈ a.outcomes, 0 ≤ v) (hb : ∀ v ∈ b.outcomes, 0 ≤ v) (h : Formula) :
    law (.join .sampleSum (.join .sum f [g]) [h])
      = law (.join .sum (.join .sampleSum f [h]) [.join .sampleSum g [h]]) := by
  have hcount := Table.nonneg_combine_add ha hb
  simp only [law_pair, hf, hg, Joint.law_sum_pair, Joint.law_sampleSum_pair]
  cases law h with
  | error e => rfl
  | ok sample =>
    simp only [bind, Except.bind, Table.sampleSum_eq_sampled sample ha,
      Table.sampleSum_eq_sampled sample hb, Table.sampleSum_eq_sampled sample hcount,
      Table.sampled_combine_add ha hb]

/-- The samples of two counts that are added have a law if what is sampled has one. -/
theorem exists_law_sampleSum_of_counts (hf : law f = .ok a) (hg : law g = .ok b)
    (ha : ∀ v ∈ a.outcomes, 0 ≤ v) (hb : ∀ v ∈ b.outcomes, 0 ≤ v) {sample : Table}
    (hh : law h = .ok sample) : ∃ t, law (.join .sampleSum (.join .sum f [g]) [h]) = .ok t := by
  have hsum : law (.join .sum f [g]) = .ok (Table.combine (· + ·) a b) := by
    rw [law_pair, hf, hg]
    exact Joint.law_sum_pair a b
  exact ⟨_, law_sampleSum_eq_ok hsum hh
    (Table.sampleSum_eq_sampled sample (Table.nonneg_combine_add ha hb))⟩

/-! ## Texts -/

section Letters

variable {x y z : List Char}

/-- Two counts in brackets, in front of a sampling. -/
theorem Reads.sampledSum (hf : Reads .unit x f) (hg : Reads .unit y g) (hh : Reads .unit z h) :
    Reads (.series .sampleSum)
      (('(' :: (x ++ (Joint.sum.separator ++ y)) ++ [')']) ++ (Joint.sampleSum.separator ++ z))
      (.join .sampleSum (.join .sum f [g]) [h]) := by
  have hcounts := ((hf.widen_member .sum).joined .sum (hg.widen_member .sum)).brackets rfl
  exact (hcounts.widen_member .sampleSum).joined .sampleSum (hh.widen_member .sampleSum)

/-- Each count in front of a sampling of its own. -/
theorem Reads.sumOfSampled (hf : Reads .unit x f) (hg : Reads .unit y g) (hh : Reads .unit z h) :
    Reads (.series .sum)
      ((x ++ (Joint.sampleSum.separator ++ z)) ++
        (Joint.sum.separator ++ (y ++ (Joint.sampleSum.separator ++ z))))
      (.join .sum (.join .sampleSum f [h]) [.join .sampleSum g [h]]) := by
  have hsampled : ∀ {letters count}, Reads .unit letters count →
      Reads Joint.sum.member (letters ++ (Joint.sampleSum.separator ++ z))
        (.join .sampleSum count [h]) := fun hcount =>
    ((hcount.widen_member .sampleSum).joined .sampleSum (hh.widen_member .sampleSum)).widen_to rfl
      rfl (by decide)
  exact (hsampled hf).joined .sum (hsampled hg)

end Letters

section Texts

variable {x y z : String}

/-- Counts that are operands by themselves are read in brackets and one by one. -/
theorem ofText_sampleSum_of_counts (hf : UnitText x f) (hg : UnitText y g) (hh : UnitText z h) :
    ofText ("(" ++ x ++ "+" ++ y ++ ")x" ++ z)
      = .ok (.join .sampleSum (.join .sum f [g]) [h]) ∧
    ofText (x ++ "x" ++ z ++ "+" ++ y ++ "x" ++ z)
      = .ok (.join .sum (.join .sampleSum f [h]) [.join .sampleSum g [h]]) := by
  obtain ⟨xs, hxs, hf⟩ := hf.exists_reads
  obtain ⟨ys, hys, hg⟩ := hg.exists_reads
  obtain ⟨zs, hzs, hh⟩ := hh.exists_reads
  have hsamples : SiftsTo (Joint.sampleSum.separator ++ z.toList)
      (Joint.sampleSum.separator ++ zs) := (SiftsTo.separator .sampleSum).append hzs
  constructor
  · refine (hf.sampledSum hg hh).ofText_eq rfl ?_
    have htext : ("(" ++ x ++ "+" ++ y ++ ")x" ++ z).toList
        = ('(' :: (x.toList ++ (Joint.sum.separator ++ y.toList)) ++ [')'])
          ++ (Joint.sampleSum.separator ++ z.toList) := by
      simp [Joint.separator]
    rw [htext]
    exact (hxs.append ((SiftsTo.separator .sum).append hys)).brackets.append hsamples
  · refine (hf.sumOfSampled hg hh).ofText_eq rfl ?_
    have htext : (x ++ "x" ++ z ++ "+" ++ y ++ "x" ++ z).toList
        = (x.toList ++ (Joint.sampleSum.separator ++ z.toList)) ++
          (Joint.sum.separator ++ (y.toList ++ (Joint.sampleSum.separator ++ z.toList))) := by
      simp [Joint.separator]
    rw [htext]
    exact (hxs.append hsamples).append
      ((SiftsTo.separator .sum).append (hys.append hsamples))

theorem chars_natural (n : Nat) : chars (.constant n) = Number.numeral n := by
  simp [chars_constant, Number.signedNumeral]

/-- A number that is not below zero is written as an operand. -/
theorem unitText_natural (n : Nat) : UnitText (text (.constant n)) (.constant n) where
  read := by
    have hsifted : sifted (Text.lowercase (text (.constant n)).toList)
        = .ok (Number.numeral n) := by
      rw [text_toList, (Notated.constant n).sifted_chars, chars_natural]
    refine ⟨.constant n, ?_, rfl⟩
    rw [Symbol.ofText_of_sifted hsifted]
    exact (Symbol.Writes.numeral n).scan_eq
  ending := by
    intro hplus
    -- the last mark would be one of the digits
    have hmem := (List.mem_filter.1 (List.mem_of_getLast? hplus)).1
    obtain ⟨ds, -, hds, -⟩ := Number.exists_digits n
    rw [text_toList, chars_natural, hds, List.mem_map] at hmem
    obtain ⟨d, -, hd⟩ := hmem
    have hdigit : ∀ d : Fin 10, Number.digitChar d ≠ '+' := by decide
    exact hdigit d hd

/-- Counts may be added in front of a sampling or behind it. Of tables without outcomes below zero,
the samples of the sum are the sum of the samples, whatever is sampled; so are the laws of formulas,
and of texts, in which the counts are operands by themselves and stand in brackets or one by one.
Numbers in front of a sampling may always be added. -/
theorem law_counts_add :
    (∀ a b sample : Table, (∀ v ∈ a.outcomes, 0 ≤ v) → (∀ v ∈ b.outcomes, 0 ≤ v) →
      ∃ n p q t, Table.convolve .sum a b = .ok n ∧ Table.sampleSum a sample = .ok p ∧
        Table.sampleSum b sample = .ok q ∧ Table.sampleSum n sample = .ok t ∧
        Table.convolve .sum p q = .ok t) ∧
    (∀ (f g h : Formula) (a b : Table), law f = .ok a → law g = .ok b →
      (∀ v ∈ a.outcomes, 0 ≤ v) → (∀ v ∈ b.outcomes, 0 ≤ v) →
      law (.join .sampleSum (.join .sum f [g]) [h])
          = law (.join .sum (.join .sampleSum f [h]) [.join .sampleSum g [h]]) ∧
        ∀ sample, law h = .ok sample →
          ∃ t, law (.join .sampleSum (.join .sum f [g]) [h]) = .ok t) ∧
    (∀ (x y z : String) (f g h : Formula) (a b : Table), UnitText x f → UnitText y g →
      UnitText z h → law f = .ok a → law g = .ok b → (∀ v ∈ a.outcomes, 0 ≤ v) →
      (∀ v ∈ b.outcomes, 0 ≤ v) → ∃ p q, ofText ("(" ++ x ++ "+" ++ y ++ ")x" ++ z) = .ok p ∧
        ofText (x ++ "x" ++ z ++ "+" ++ y ++ "x" ++ z) = .ok q ∧ law p = law q) ∧
    ∀ (m n : Nat) (z : String) (h : Formula), UnitText z h → ∃ p q,
      ofText ("(" ++ text (.constant m) ++ "+" ++ text (.constant n) ++ ")x" ++ z) = .ok p ∧
        ofText (text (.constant m) ++ "x" ++ z ++ "+" ++ text (.constant n) ++ "x" ++ z) = .ok q ∧
        law p = law q := by
  have htexts : ∀ (x y z : String) (f g h : Formula) (a b : Table), UnitText x f → UnitText y g →
      UnitText z h → law f = .ok a → law g = .ok b → (∀ v ∈ a.outcomes, 0 ≤ v) →
      (∀ v ∈ b.outcomes, 0 ≤ v) → ∃ p q, ofText ("(" ++ x ++ "+" ++ y ++ ")x" ++ z) = .ok p ∧
        ofText (x ++ "x" ++ z ++ "+" ++ y ++ "x" ++ z) = .ok q ∧ law p = law q := by
    intro x y z f g h a b hx hy hz hf hg ha hb
    obtain ⟨htogether, hapart⟩ := ofText_sampleSum_of_counts hx hy hz
    exact ⟨_, _, htogether, hapart, law_sampleSum_of_counts hf hg ha hb h⟩
  refine ⟨fun a b sample ha hb => Table.exists_sampleSum_of_counts ha hb sample,
    fun f g h a b hf hg ha hb => ⟨law_sampleSum_of_counts hf hg ha hb h,
      fun sample => exists_law_sampleSum_of_counts hf hg ha hb⟩, htexts, fun m n z h hz => ?_⟩
  exact htexts _ _ z _ _ h (.sure m) (.sure n) (unitText_natural m) (unitText_natural n) hz rfl rfl
    (by simp) (by simp)

/-- No coin or one coin, two coins more, and the faces of a coin of one and two. -/
theorem law_counts_add_of_coins :
    (∃ n p q t, Table.convolve .sum (.sure 0) (.sure 2) = .ok n ∧
      Table.sampleSum (.sure 0) (.sure (-1)) = .ok p ∧
      Table.sampleSum (.sure 2) (.sure (-1)) = .ok q ∧ Table.sampleSum n (.sure (-1)) = .ok t ∧
      Table.convolve .sum p q = .ok t) ∧
    law (.join .sampleSum (.join .sum (.die ⟨0, 1, by decide⟩) [.constant 2])
        [.die ⟨1, 2, by decide⟩])
      = law (.join .sum (.join .sampleSum (.die ⟨0, 1, by decide⟩) [.die ⟨1, 2, by decide⟩])
          [.join .sampleSum (.constant 2) [.die ⟨1, 2, by decide⟩]]) ∧
    (∃ p q, ofText "(d3+2)xd6" = .ok p ∧ ofText "d3xd6+2xd6" = .ok q ∧ law p = law q) ∧
    ∃ p q, ofText "(10+2)xd6" = .ok p ∧ ofText "10xd6+2xd6" = .ok q ∧ law p = law q := by
  obtain ⟨htables, hformulas, htexts, hnumbers⟩ := law_counts_add
  have hthree : UnitText "d3" (.die ⟨1, 3, by decide⟩) := ⟨⟨.die 1 3, rfl, rfl⟩, by decide⟩
  have htwo : UnitText "2" (.constant 2) := ⟨⟨.constant 2, rfl, rfl⟩, by decide⟩
  have hsix : UnitText "d6" (.die ⟨1, 6, by decide⟩) := ⟨⟨.die 1 6, rfl, rfl⟩, by decide⟩
  refine ⟨htables _ _ _ (by simp) (by simp),
    (hformulas _ _ _ _ _ rfl rfl (by decide) (by decide)).1,
    htexts "d3" "2" "d6" _ _ _ _ _ hthree htwo hsix rfl rfl (by decide) (by decide), ?_⟩
  exact hnumbers 10 2 "d6" _ hsix

end Texts

end Formula

end DiceLaw
