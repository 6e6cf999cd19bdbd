import DiceLaw.Proofs.Law.Variance
import DiceLaw.Proofs.Roll.OfFormula

/-!
# Variances of rolls

The variance of the roll of a formula is composed from the means and the variances of the rolls of
its parts.

## Main definitions

* `Roll.moments`: mean and variance together

## Main results

* `Roll.variance_composed`: the variances of numbers, dice, sums, products and sample-sums
-/

namespace DiceLaw

namespace Roll

variable {f first : Formula} {rest : List Formula} {t : Table} {r : Roll}

/-- The mean and the variance of a roll. -/
def moments (r : Roll) : Moments := ⟨r.mean, r.variance⟩

theorem mean_table (r : Roll) : r.table.mean = r.mean := rfl

theorem variance_table (r : Roll) : r.table.variance = r.variance := by
  rw [variance, mean, Table.variance, Table.mean]
  simp only [sq]

theorem moments_table (r : Roll) : r.table.moments = r.moments := by
  rw [Table.moments, mean_table, variance_table, moments]

theorem exists_variance_of_law (h : f.law = .ok t) :
    ∃ r, ofFormula? f = .ok r ∧ r.variance = t.variance := by
  obtain ⟨r, hr, rfl⟩ := exists_of_law h
  exact ⟨r, hr, r.variance_table.symm⟩

theorem variance_of_sum (h : ofFormula? (.join .sum first rest) = .ok r) :
    ∃ rs, (first :: rest).mapM ofFormula? = .ok rs ∧ r.variance = (rs.map variance).sum := by
  obtain ⟨rs, t, ts, hrs, htables, hts, hlaw⟩ := exists_parts h
  have hvariance := Joint.variance_law_sum hts hlaw
  rw [← htables] at hvariance
  refine ⟨rs, hrs, ?_⟩
  simpa only [List.map_map, Function.comp_def, variance_table] using hvariance

theorem variance_of_product (h : ofFormula? (.join .product first rest) = .ok r) :
    ∃ rs, (first :: rest).mapM ofFormula? = .ok rs ∧
      r.variance = (rs.map fun s => s.variance + s.mean ^ 2).prod
        - (rs.map fun s => s.mean ^ 2).prod := by
  obtain ⟨rs, t, ts, hrs, htables, hts, hlaw⟩ := exists_parts h
  have hvariance := Joint.variance_law_product hts hlaw
  rw [← htables] at hvariance
  refine ⟨rs, hrs, ?_⟩
  simpa only [List.map_map, Function.comp_def, variance_table, mean_table] using hvariance

theorem moments_of_sampleSum (h : ofFormula? (.join .sampleSum first rest) = .ok r) :
    ∃ s rs, (first :: rest).mapM ofFormula? = .ok (s :: rs) ∧
      r.moments = (rs.map moments).foldl Moments.sampled s.moments := by
  obtain ⟨rolls, t, ts, hrolls, htables, hts, hlaw⟩ := exists_parts h
  obtain ⟨s, rs, rfl, rfl, rfl⟩ := List.map_eq_cons_iff.1 htables
  refine ⟨s, rs, hrolls, ?_⟩
  have hmoments := Joint.moments_law_sampleSum hts hlaw
  simpa only [List.map_map, Function.comp_def, moments_table] using hmoments

/-- Variances are composed exactly. A number has none, and that of a die depends on the number of
its faces. A sum has the sum of the variances of its parts. A product has the product of their
second moments, which are the variances with the squared means added, less the product of the
squared means. In a sample-sum, each sample spreads as often as the mean of the count says, and the
count spreads with the squared mean of a sample; further samples take the moments so far for those
of their count. -/
theorem variance_composed :
    (∀ value : Int, ∃ r, ofFormula? (.constant value) = .ok r ∧ r.variance = 0) ∧
    (∀ d : Die, ∃ r, ofFormula? (.die d) = .ok r ∧
      r.variance = ((d.hi - d.lo + 1) ^ 2 - 1) / 12) ∧
    (∀ first rest r, ofFormula? (.join .sum first rest) = .ok r →
      ∃ rs, (first :: rest).mapM ofFormula? = .ok rs ∧ r.variance = (rs.map variance).sum) ∧
    (∀ first rest r, ofFormula? (.join .product first rest) = .ok r →
      ∃ rs, (first :: rest).mapM ofFormula? = .ok rs ∧
        r.variance = (rs.map fun s => s.variance + s.mean ^ 2).prod
          - (rs.map fun s => s.mean ^ 2).prod) ∧
    (∀ count sample r, ofFormula? (.join .sampleSum count [sample]) = .ok r →
      ∃ n x, ofFormula? count = .ok n ∧ ofFormula? sample = .ok x ∧
        r.variance = n.mean * x.variance + n.variance * x.mean ^ 2) ∧
    ∀ first rest r, ofFormula? (.join .sampleSum first rest) = .ok r →
      ∃ s rs, (first :: rest).mapM ofFormula? = .ok (s :: rs) ∧
        r.moments = (rs.map moments).foldl Moments.sampled s.moments := by
  refine ⟨fun value => ?_, fun d => ?_, fun _ _ _ => variance_of_sum,
    fun _ _ _ => variance_of_product, fun count sample r h => ?_,
    fun _ _ _ => moments_of_sampleSum⟩
  · obtain ⟨r, hr, hvariance⟩ := exists_variance_of_law (f := .constant value) (by rw [Formula.law])
    exact ⟨r, hr, hvariance.trans (Table.variance_sure value)⟩
  · obtain ⟨r, hr, hvariance⟩ := exists_variance_of_law (f := .die d) (by rw [Formula.law])
    exact ⟨r, hr, hvariance.trans d.variance_law⟩
  · obtain ⟨s, rs, hrs, hmoments⟩ := moments_of_sampleSum h
    obtain ⟨n, x, hn, hx, heq⟩ := Except.mapM_pair_eq_ok.1 hrs
    obtain ⟨rfl, rfl⟩ := List.cons.inj heq
    exact ⟨s, x, hn, hx, congrArg Moments.variance hmoments⟩

/-- A coin with the faces one and two: three is added to it, it is multiplied by another one, and as
many coins as it shows are tossed, once and twice. -/
theorem variance_composed_of_coin :
    (∃ r, ofFormula? (.join .sum (.die ⟨1, 2, by decide⟩) [.constant 3]) = .ok r ∧
      r.variance = 1 / 4) ∧
    (∃ r, ofFormula? (.join .product (.die ⟨1, 2, by decide⟩) [.die ⟨1, 2, by decide⟩]) = .ok r ∧
      r.variance = 19 / 16) ∧
    (∃ r, ofFormula? (.join .sampleSum (.die ⟨1, 2, by decide⟩) [.die ⟨1, 2, by decide⟩]) = .ok r ∧
      r.variance = 15 / 16) ∧
    ∃ r, ofFormula? (.join .sampleSum (.die ⟨1, 2, by decide⟩)
        [.die ⟨1, 2, by decide⟩, .die ⟨1, 2, by decide⟩]) = .ok r ∧
      r.variance = 171 / 64 := by
  obtain ⟨hconstant, hdie, hsum, hproduct, hsampleSum, hsampleSums⟩ := variance_composed
  obtain ⟨three, hthree, hthreeVariance⟩ := hconstant 3
  obtain ⟨coin, hcoin, hcoinVariance⟩ := hdie ⟨1, 2, by decide⟩
  have hcoinMean : coin.mean = 3 / 2 := by
    have htable : coin.table = Die.law ⟨1, 2, by decide⟩ :=
      (Except.ok.inj (ofFormula?_eq_ok_iff.1 hcoin).1).symm
    rw [← mean_table, htable]
    exact (Die.mean_law ⟨1, 2, by decide⟩).trans (by norm_num)
  have hcoinVariance : coin.variance = 1 / 4 := hcoinVariance.trans (by norm_num)
  have hpair : ∀ {f g : Formula} {a b : Roll} {rs : List Roll}, ofFormula? f = .ok a →
      ofFormula? g = .ok b → [f, g].mapM ofFormula? = .ok rs → rs = [a, b] := fun ha hb hrs =>
    Except.ok.inj (hrs.symm.trans (Except.mapM_pair_eq_ok.2 ⟨_, _, ha, hb, rfl⟩))
  refine ⟨?_, ?_, ?_, ?_⟩
  · obtain ⟨r, hr, -⟩ := exists_of_law (f := .join .sum (.die ⟨1, 2, by decide⟩) [.constant 3]) rfl
    obtain ⟨rs, hrs, hvariance⟩ := hsum _ _ r hr
    obtain rfl := hpair hcoin hthree hrs
    refine ⟨r, hr, hvariance.trans ?_⟩
    simp [hcoinVariance, hthreeVariance]
  · obtain ⟨r, hr, -⟩ := exists_of_law
      (f := .join .product (.die ⟨1, 2, by decide⟩) [.die ⟨1, 2, by decide⟩]) rfl
    obtain ⟨rs, hrs, hvariance⟩ := hproduct _ _ r hr
    obtain rfl := hpair hcoin hcoin hrs
    refine ⟨r, hr, hvariance.trans ?_⟩
    simp only [List.map_cons, List.map_nil, List.prod_cons, List.prod_nil, hcoinVariance, hcoinMean]
    norm_num
  · obtain ⟨r, hr, -⟩ := exists_of_law
      (f := .join .sampleSum (.die ⟨1, 2, by decide⟩) [.die ⟨1, 2, by decide⟩]) rfl
    obtain ⟨n, x, hn, hx, hvariance⟩ := hsampleSum _ _ r hr
    obtain rfl : coin = n := Except.ok.inj (hcoin.symm.trans hn)
    obtain rfl : coin = x := Except.ok.inj (hcoin.symm.trans hx)
    refine ⟨r, hr, hvariance.trans ?_⟩
    rw [hcoinVariance, hcoinMean]
    norm_num
  · obtain ⟨r, hr, -⟩ := exists_of_law (f := .join .sampleSum (.die ⟨1, 2, by decide⟩)
      [.die ⟨1, 2, by decide⟩, .die ⟨1, 2, by decide⟩]) rfl
    obtain ⟨s, rs, hrs, hmoments⟩ := hsampleSums _ _ r hr
    obtain ⟨n, xs, hn, hxs, heq⟩ := Except.mapM_cons_eq_ok.1 hrs
    obtain rfl := hpair hcoin hcoin hxs
    obtain rfl : coin = n := Except.ok.inj (hcoin.symm.trans hn)
    obtain ⟨rfl, rfl⟩ := List.cons.inj heq
    refine ⟨r, hr, (congrArg Moments.variance hmoments).trans ?_⟩
    simp only [List.map_cons, List.map_nil, List.foldl_cons, List.foldl_nil, moments,
      Moments.sampled, hcoinVariance, hcoinMean]
    norm_num

end Roll

end DiceLaw
