import DiceLaw.Proofs.Law.Mean
import DiceLaw.Proofs.Roll.OfFormula

/-!
# Means of rolls

The mean of the roll of a formula is composed from the means of the rolls of its parts.

## Main results

* `Roll.mean_composed`: the means of numbers, dice, joints and exploding formulas
-/

namespace DiceLaw

namespace Roll

variable {f first body : Formula} {rest : List Formula} {t : Table} {r : Roll}

theorem exists_mean_of_law (h : f.law = .ok t) : ∃ r, ofFormula? f = .ok r ∧ r.mean = t.mean := by
  obtain ⟨r, hr, rfl⟩ := exists_of_law h
  exact ⟨r, hr, rfl⟩

theorem map_mean (rs : List Roll) : rs.map mean = (rs.map (·.table)).map Table.mean := by
  rw [List.map_map]
  rfl

/-- How the means of tables are composed when a joint takes them together, so are the means of the
parts of a formula. -/
theorem mean_of_join {joint : Joint} {composed : List Rat → Rat}
    (hjoint : ∀ {t u : Table} {ts : List Table}, (∀ s ∈ t :: ts, s.IsDistribution) →
      joint.law (t :: ts) = .ok u → u.mean = composed ((t :: ts).map Table.mean))
    (h : ofFormula? (.join joint first rest) = .ok r) :
    ∃ rs, (first :: rest).mapM ofFormula? = .ok rs ∧ r.mean = composed (rs.map mean) := by
  obtain ⟨rs, t, ts, hrs, htables, hts, hlaw⟩ := exists_parts h
  refine ⟨rs, hrs, ?_⟩
  rw [map_mean, htables]
  exact hjoint hts hlaw

/-- The mean of the body counts once for each time that the body may be rolled. -/
theorem mean_of_explode {threshold : Option Int} {limit : Nat}
    (h : ofFormula? (.explode body threshold limit) = .ok r) :
    ∃ s, ofFormula? body = .ok s ∧ r.mean = s.mean *
      ∑ i ∈ Finset.range (limit + 1), s.table.mass (threshold.getD s.greatest ≤ ·) ^ i := by
  obtain ⟨s, hs, hdistribution, htable⟩ := exists_body h
  refine ⟨s, hs, ?_⟩
  have hmean := Table.mean_explode hdistribution (threshold.getD s.greatest) limit
  rwa [← htable] at hmean

/-- Means are composed exactly. A number is its own mean, and that of a die is the middle of its
faces. A sum has the sum of the means of its parts, a product and a sample-sum have the product of
them. If a formula explodes, the mean of its body counts once, and once more for each time that the
body is rolled again, with the probability that all rolls before reach the threshold. -/
theorem mean_composed :
    (∀ value : Int, ∃ r, ofFormula? (.constant value) = .ok r ∧ r.mean = value) ∧
    (∀ d : Die, ∃ r, ofFormula? (.die d) = .ok r ∧ r.mean = (d.lo + d.hi) / 2) ∧
    (∀ first rest r, ofFormula? (.join .sum first rest) = .ok r →
      ∃ rs, (first :: rest).mapM ofFormula? = .ok rs ∧ r.mean = (rs.map mean).sum) ∧
    (∀ first rest r, ofFormula? (.join .product first rest) = .ok r →
      ∃ rs, (first :: rest).mapM ofFormula? = .ok rs ∧ r.mean = (rs.map mean).prod) ∧
    (∀ first rest r, ofFormula? (.join .sampleSum first rest) = .ok r →
      ∃ rs, (first :: rest).mapM ofFormula? = .ok rs ∧ r.mean = (rs.map mean).prod) ∧
    ∀ body threshold limit r, ofFormula? (.explode body threshold limit) = .ok r →
      ∃ s, ofFormula? body = .ok s ∧ r.mean = s.mean *
        ∑ i ∈ Finset.range (limit + 1), s.table.mass (threshold.getD s.greatest ≤ ·) ^ i := by
  refine ⟨fun value => ?_, fun d => ?_, fun _ _ _ => mean_of_join Joint.mean_law_sum,
    fun _ _ _ => mean_of_join Joint.mean_law_product,
    fun _ _ _ => mean_of_join Joint.mean_law_sampleSum, fun _ _ _ _ => mean_of_explode⟩
  · obtain ⟨r, hr, hmean⟩ := exists_mean_of_law (f := .constant value) (by rw [Formula.law])
    exact ⟨r, hr, hmean.trans (Table.mean_sure value)⟩
  · obtain ⟨r, hr, hmean⟩ := exists_mean_of_law (f := .die d) (by rw [Formula.law])
    exact ⟨r, hr, hmean.trans d.mean_law⟩

/-- A coin with the faces one and two: three is added to it, it is multiplied by three, as many
coins as it shows are tossed, and it is tossed once more after a two. -/
theorem mean_composed_of_coin :
    (∃ r, ofFormula? (.join .sum (.die ⟨1, 2, by decide⟩) [.constant 3]) = .ok r ∧
      r.mean = 9 / 2) ∧
    (∃ r, ofFormula? (.join .product (.die ⟨1, 2, by decide⟩) [.constant 3]) = .ok r ∧
      r.mean = 9 / 2) ∧
    (∃ r, ofFormula? (.join .sampleSum (.die ⟨1, 2, by decide⟩) [.die ⟨1, 2, by decide⟩]) = .ok r ∧
      r.mean = 9 / 4) ∧
    ∃ r, ofFormula? (.explode (.die ⟨1, 2, by decide⟩) (some 2) 1) = .ok r ∧ r.mean = 9 / 4 := by
  obtain ⟨hconstant, hdie, hsum, hproduct, hsampleSum, hexplode⟩ := mean_composed
  obtain ⟨three, hthree, hthreeMean⟩ := hconstant 3
  obtain ⟨coin, hcoin, hcoinMean⟩ := hdie ⟨1, 2, by decide⟩
  have hpair : ∀ {f g : Formula} {a b : Roll} {rs : List Roll}, ofFormula? f = .ok a →
      ofFormula? g = .ok b → [f, g].mapM ofFormula? = .ok rs → rs.map mean = [a.mean, b.mean] := by
    intro f g a b rs ha hb hrs
    rw [List.mapM_cons, List.mapM_cons, ha, hb] at hrs
    obtain rfl : [a, b] = rs := Except.ok.inj hrs
    rfl
  refine ⟨?_, ?_, ?_, ?_⟩
  · obtain ⟨r, hr, -⟩ := exists_of_law (f := .join .sum (.die ⟨1, 2, by decide⟩) [.constant 3]) rfl
    obtain ⟨rs, hrs, hmean⟩ := hsum _ _ r hr
    rw [hpair hcoin hthree hrs, hcoinMean, hthreeMean] at hmean
    exact ⟨r, hr, hmean.trans (by norm_num)⟩
  · obtain ⟨r, hr, -⟩ :=
      exists_of_law (f := .join .product (.die ⟨1, 2, by decide⟩) [.constant 3]) rfl
    obtain ⟨rs, hrs, hmean⟩ := hproduct _ _ r hr
    rw [hpair hcoin hthree hrs, hcoinMean, hthreeMean] at hmean
    exact ⟨r, hr, hmean.trans (by norm_num)⟩
  · obtain ⟨r, hr, -⟩ :=
      exists_of_law (f := .join .sampleSum (.die ⟨1, 2, by decide⟩) [.die ⟨1, 2, by decide⟩]) rfl
    obtain ⟨rs, hrs, hmean⟩ := hsampleSum _ _ r hr
    rw [hpair hcoin hcoin hrs, hcoinMean] at hmean
    exact ⟨r, hr, hmean.trans (by norm_num)⟩
  · obtain ⟨r, hr, -⟩ := exists_of_law (f := .explode (.die ⟨1, 2, by decide⟩) (some 2) 1) rfl
    obtain ⟨s, hs, hmean⟩ := hexplode _ _ _ r hr
    obtain rfl : coin = s := Except.ok.inj (hcoin.symm.trans hs)
    have htable : coin.table = Die.law ⟨1, 2, by decide⟩ :=
      (Except.ok.inj (ofFormula?_eq_ok_iff.1 hcoin).1).symm
    have hmass : (Die.law ⟨1, 2, by decide⟩).mass ((2 : Int) ≤ ·) = 1 / 2 := by decide +kernel
    rw [hcoinMean, htable, Option.getD_some, hmass] at hmean
    exact ⟨r, hr, hmean.trans (by norm_num [Finset.sum_range_succ])⟩

end Roll

end DiceLaw
