import DiceLaw.Proofs.Law.Mirror
import DiceLaw.Proofs.Roll.OfFormula
import DiceLaw.Proofs.Roll.Probability

/-!
# The greatest and the least of several rolls

The greatest of several outcomes is at most a number if all of them are, and the least of them is at
least a number if all of them are. As the outcomes are independent, the probabilities are
multiplied. Both are read off running sums: the first directly, and the second as what is missing to
one.

## Main results

* `Table.mass_combine`: a property that an outcome has if both that it comes from have it
* `Roll.exists_of_parts`: the roll of joined parts that all have rolls
* `Roll.extremes_product_law`: the greatest and the least of several parts
-/

namespace DiceLaw

namespace Table

variable {p : Int → Prop} [DecidablePred p]

/-- If an outcome has a property just if both outcomes that it comes from have it, the weights of
the outcomes with the property are multiplied. -/
theorem mass_combine {g : Int → Int → Int} (hp : ∀ x y, p (g x y) ↔ p x ∧ p y) (a b : Table) :
    (combine g a b).mass p = a.mass p * b.mass p := by
  have hboth : ∀ x y : Int, (if p (g x y) then (1 : Rat) else 0)
      = (if p x then 1 else 0) * if p y then 1 else 0 := by
    intro x y
    simp only [hp, ite_and, ite_mul, one_mul, zero_mul]
  simp only [mass_eq_expectation]
  exact expectation_combine_mul hboth a b

theorem mass_foldl_combine {g : Int → Int → Int} (hp : ∀ x y, p (g x y) ↔ p x ∧ p y)
    (first : Table) (rest : List Table) :
    (rest.foldl (combine g) first).mass p = ((first :: rest).map fun t => t.mass p).prod := by
  induction rest generalizing first with
  | nil => simp
  | cons next rest ih =>
    rw [List.foldl_cons, ih]
    simp only [List.map_cons, List.prod_cons, mass_combine hp, mul_assoc]

end Table

namespace Roll

variable {first : Formula} {rest : List Formula} {rs : List Roll}

/-- Parts that all have rolls have one when they are joined, if the operator never fails. A property
that an outcome has just if the outcomes that it comes from have it has the product of the
probabilities. -/
theorem exists_of_parts {joint : Joint} {op : Operator} (hjoint : joint.law = Table.convolveAll op)
    (hop : op ≠ .quotient) (h : (first :: rest).mapM ofFormula? = .ok rs) :
    ∃ r, ofFormula? (.join joint first rest) = .ok r ∧ r.table.IsDistribution ∧
      (∀ s ∈ rs, s.table.IsDistribution) ∧
      ∀ (p : Int → Prop) [DecidablePred p], (∀ x y, p (op.combine x y) ↔ p x ∧ p y) →
        r.table.mass p = (rs.map fun s => s.table.mass p).prod := by
  have hlaws := laws_of_rolls h
  have hdistributions : ∀ t ∈ rs.map (·.table), t.IsDistribution :=
    Formula.isDistribution_laws _ hlaws
  obtain ⟨t, ts, ht, hts, htables⟩ := Formula.laws_cons_eq_ok.1 hlaws
  have hlaw : (Formula.join joint first rest).law = .ok (ts.foldl (Table.combine op.combine) t) :=
    Formula.law_join_eq_ok.2 ⟨t, ts, ht, hts, hjoint ▸ Table.foldlM_convolve_eq_ok hop ts t⟩
  obtain ⟨r, hr, hrtable⟩ := exists_of_law hlaw
  refine ⟨r, hr, ?_, List.forall_mem_map.1 hdistributions, fun p _ hp => ?_⟩
  · rw [hrtable]
    exact Formula.isDistribution_law _ hlaw
  · rw [hrtable, Table.mass_foldl_combine hp, ← htables, List.map_map]
    rfl

/-- The probability that the greatest of several parts is at most a number is the product of the
probabilities that each of them is, and the probability that the least of them is at least a number
is the product of the probabilities that each of them is. -/
theorem extremes_product_law (h : (first :: rest).mapM ofFormula? = .ok rs) :
    (∃ r, ofFormula? (.join .max first rest) = .ok r ∧
      ∀ v, r.probLte v = (rs.map fun s => s.probLte v).prod) ∧
    ∃ r, ofFormula? (.join .min first rest) = .ok r ∧
      ∀ v, r.probGte v = (rs.map fun s => s.probGte v).prod := by
  constructor
  · obtain ⟨r, hr, -, -, hmass⟩ :=
      exists_of_parts (rfl : Joint.max.law = Table.convolveAll .max) (by decide) h
    refine ⟨r, hr, fun v => ?_⟩
    simp only [probLte_eq_mass]
    exact hmass (· ≤ v) fun x y => max_le_iff
  · obtain ⟨r, hr, hdistribution, hparts, hmass⟩ :=
      exists_of_parts (rfl : Joint.min.law = Table.convolveAll .min) (by decide) h
    refine ⟨r, hr, fun v => ?_⟩
    -- what is missing to one is the weight from the number on, as all weights sum to one
    rw [probGte_eq_mass v hdistribution.total, hmass (v ≤ ·) fun x y => le_min_iff]
    congr 1
    exact List.map_congr_left fun s hs => (probGte_eq_mass v (hparts s hs).total).symm

/-- Of two coins with the faces minus one and zero, and one and two, the first is never above one
and the second never below zero. -/
theorem extremes_product_law_of_coins :
    (∃ r, ofFormula? (.join .max (.die ⟨-1, 0, by decide⟩) [.die ⟨1, 2, by decide⟩]) = .ok r ∧
      r.probLte 1 = 1 / 2) ∧
    ∃ r, ofFormula? (.join .min (.die ⟨-1, 0, by decide⟩) [.die ⟨1, 2, by decide⟩]) = .ok r ∧
      r.probGte 0 = 1 / 2 := by
  obtain ⟨low, hlow, hlowTable⟩ := exists_of_law (f := .die ⟨-1, 0, by decide⟩) rfl
  obtain ⟨high, hhigh, hhighTable⟩ := exists_of_law (f := .die ⟨1, 2, by decide⟩) rfl
  obtain ⟨⟨greatest, hgreatest, hlte⟩, least, hleast, hgte⟩ :=
    extremes_product_law (Except.mapM_pair_eq_ok.2 ⟨low, high, hlow, hhigh, rfl⟩)
  refine ⟨⟨greatest, hgreatest, (hlte 1).trans ?_⟩, least, hleast, (hgte 0).trans ?_⟩
  · simp only [List.map_cons, List.map_nil, probLte_eq_mass, hlowTable, hhighTable]
    decide +kernel
  · simp only [List.map_cons, List.map_nil, probGte, probLt_eq_mass, hlowTable, hhighTable]
    decide +kernel

end Roll

end DiceLaw
