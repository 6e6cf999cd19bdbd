import DiceLaw.Proofs.Law.Shift
import DiceLaw.Proofs.Roll.Statistics

/-!
# Shifted and mirrored rolls

Whatever is found in a roll by its weights alone, in the order of the outcomes, stands at the same
place when the outcomes are replaced in order: running sums, ends, median, modes, quantiles and the
outcomes for draws. A number that is added to a formula replaces all outcomes by shifted ones. Minus
one times a formula turns the order round, so that the ends change places, and what is asked about
the numbers below is answered by the numbers above.

## Main definitions

* `Roll.IsRelabelling`: a roll with the outcomes of another one replaced in order
* `Roll.IsMirror`: a roll that is the mirror image of another one

## Main results

* `modesOf_relabel`, `modesOf_reverse`: the outcomes of greatest weight
* `Roll.isRelabelling_of_entries`: what is found by weights is replaced with the outcomes
* `Roll.isMirror_of_table`: the mirror image of a table
* `Roll.shift_and_mirror`: a number that is added, and minus one times a formula
-/

namespace DiceLaw

variable {xs ys : List Entry} {g : Int → Int}

/-! ## Outcomes of greatest weight -/

/-- The greatest weight does not depend on the outcomes. -/
theorem peakOf_eq_foldl_max (entries : List Entry) :
    peakOf entries = (entries.map (·.2)).foldl max (-1) := by
  rw [List.foldl_map, peakOf]
  simp only [max_def_lt]

theorem peakOf_congr (h : (xs.map (·.2)).Perm (ys.map (·.2))) : peakOf xs = peakOf ys := by
  rw [peakOf_eq_foldl_max, peakOf_eq_foldl_max, h.foldl_eq]

theorem modesOf_relabel (g : Int → Int) (entries : List Entry) :
    modesOf (entries.map (relabel g)) = (modesOf entries).map g := by
  have hpeak : peakOf (entries.map (relabel g)) = peakOf entries :=
    peakOf_congr (by rw [List.map_map]; exact .refl _)
  rw [modesOf, hpeak, List.filter_map, List.map_map, modesOf, List.map_map]
  rfl

theorem modesOf_reverse (entries : List Entry) :
    modesOf entries.reverse = (modesOf entries).reverse := by
  have hpeak : peakOf entries.reverse = peakOf entries :=
    peakOf_congr ((List.reverse_perm entries).map _)
  rw [modesOf, hpeak, List.filter_reverse, List.map_reverse, modesOf]

theorem firstReaching_relabel (g : Int → Int) (p : Binary64) (entries : List Entry) :
    firstReaching p (entries.map (relabel g)) = (firstReaching p entries).map g := by
  induction entries with
  | nil => rfl
  | cons e rest ih =>
    obtain ⟨v, c⟩ := e
    rw [List.map_cons, relabel, firstReaching, firstReaching]
    cases Binary64.ofRat? c with
    | none => rfl
    | some c =>
      simp only [Option.elim_some, ih]
      split <;> rfl

namespace Roll

variable {r d : Roll}

/-! ## Relabelled rolls -/

/-- A roll that has the outcomes of another one replaced in order: all that is found by the weights
is replaced with them. -/
structure IsRelabelling (g : Int → Int) (r d : Roll) : Prop where
  entries_eq : r.table.entries = d.table.entries.map (relabel g)
  cumulative_eq : r.table.cumulative = d.table.cumulative.map (relabel g)
  least_eq : r.least = g d.least
  greatest_eq : r.greatest = g d.greatest
  median_eq : r.median = g d.median
  modes_eq : r.modes = d.modes.map g
  quantile_eq : ∀ p, r.quantile p = (d.quantile p).map g
  quantileOf_eq : ∀ p, r.quantileOf p = (d.quantileOf p).map g
  sample_eq : ∀ draw, r.sample draw = (d.sample draw).map g
  sampleMany_eq : ∀ n draws, r.sampleMany n draws =
    ((d.sampleMany n draws).1.map (List.map g), (d.sampleMany n draws).2)

/-- The median is the outcome for a draw of one half, or else the greatest outcome. -/
theorem median_eq_getD (r : Roll) : r.median = (r.outcomeAt? (1 / 2)).getD r.greatest := by
  rw [median, outcomeAt?]
  cases r.table.cumulative.find? fun e => (1 : Rat) / 2 ≤ e.2 <;> rfl

theorem outcomeAt?_of_cumulative (h : r.table.cumulative = d.table.cumulative.map (relabel g))
    (p : Rat) : r.outcomeAt? p = (d.outcomeAt? p).map g := by
  rw [outcomeAt?, h, List.find?_map, Option.map_map, outcomeAt?, Option.map_map]
  rfl

theorem sample_of_cumulative (h : r.table.cumulative = d.table.cumulative.map (relabel g))
    (draw : Binary64) : r.sample draw = (d.sample draw).map g := by
  have hfind : (r.table.cumulative.find? fun e => draw.atMost e.2)
      = (d.table.cumulative.find? fun e => draw.atMost e.2).map (relabel g) := by
    rw [h, List.find?_map]
    rfl
  rw [sample, hfind, sample]
  cases d.table.cumulative.find? fun e => draw.atMost e.2 <;> rfl

/-- If each draw has its outcome replaced, so have the next draws of a list. -/
theorem sampleMany_of_sample (h : ∀ draw, r.sample draw = (d.sample draw).map g) (n : Nat)
    (draws : List Binary64) : r.sampleMany n draws =
      ((d.sampleMany n draws).1.map (List.map g), (d.sampleMany n draws).2) := by
  induction n generalizing draws with
  | zero => rfl
  | succ n ih =>
    cases draws with
    | nil => rfl
    | cons draw rest =>
      -- the first draw fails for both, or leaves the same draws to both
      simp only [sampleMany, sampleNext, h]
      cases d.sample draw with
      | error e => rfl
      | ok v =>
        simp only [Except.map, ih]
        obtain ⟨outcomes, left⟩ := d.sampleMany n rest
        cases outcomes <;> rfl

theorem quantile_of_cumulative (hgreatest : r.greatest = g d.greatest)
    (h : r.table.cumulative = d.table.cumulative.map (relabel g)) (p : Binary64) :
    r.quantile p = (d.quantile p).map g := by
  rw [quantile, hgreatest, h, firstReaching_relabel, quantile]
  split <;> rfl

/-- What is found by the weights of a roll, in the order of its outcomes, is replaced with the
outcomes. -/
theorem isRelabelling_of_entries (h : r.table.entries = d.table.entries.map (relabel g)) :
    r.IsRelabelling g d := by
  have hcumulative : r.table.cumulative = d.table.cumulative.map (relabel g) := by
    rw [Table.cumulative, h, runningSums_relabel, Table.cumulative]
  have hleast : r.least = g d.least := by
    have hhead := r.head?_entries
    rw [h, List.head?_map, List.head?_eq_some_head d.occupied] at hhead
    exact (Option.some.inj hhead).symm
  have hgreatest : r.greatest = g d.greatest := by
    have hlast := r.getLast?_entries
    rw [h, List.getLast?_map, List.getLast?_eq_some_getLast d.occupied] at hlast
    exact (Option.some.inj hlast).symm
  constructor
  case entries_eq => exact h
  case cumulative_eq => exact hcumulative
  case least_eq => exact hleast
  case greatest_eq => exact hgreatest
  case median_eq =>
    rw [median_eq_getD, outcomeAt?_of_cumulative hcumulative, hgreatest, Option.getD_map,
      median_eq_getD]
  case modes_eq =>
    show modesOf r.table.entries = _
    rw [h]
    exact modesOf_relabel g _
  case quantile_eq => exact quantile_of_cumulative hgreatest hcumulative
  case quantileOf_eq =>
    intro p
    rw [quantileOf, quantileOf]
    cases Binary64.ofRat? p with
    | none => rfl
    | some p => exact quantile_of_cumulative hgreatest hcumulative p
  case sample_eq => exact sample_of_cumulative hcumulative
  case sampleMany_eq => exact sampleMany_of_sample (sample_of_cumulative hcumulative)

/-! ## Mirrored rolls -/

/-- A roll that is the mirror image of another one: the ends change places, and what is below a
number is above its negative. -/
structure IsMirror (r d : Roll) : Prop where
  entries_eq : r.table.entries = (d.table.entries.map (relabel (-·))).reverse
  least_eq : r.least = -d.greatest
  greatest_eq : r.greatest = -d.least
  mean_eq : r.mean = -d.mean
  variance_eq : r.variance = d.variance
  modes_eq : r.modes = (d.modes.map (-·)).reverse
  prob_eq : ∀ v, r.prob v = d.prob (-v)
  probLt_eq : ∀ v, r.probLt v = d.probGt (-v)
  probLte_eq : ∀ v, r.probLte v = d.probGte (-v)
  probGte_eq : ∀ v, r.probGte v = d.probLte (-v)
  probGt_eq : ∀ v, r.probGt v = d.probLt (-v)

/-- The mirror image of a table answers from the other side. -/
theorem isMirror_of_table (h : r.table = d.table.mirror)
    (htotal : d.table.expectation (fun _ => 1) = 1) : r.IsMirror d := by
  have hentries : r.table.entries = (d.table.entries.map (relabel (-·))).reverse := by
    rw [h, Table.entries_mirror]
  -- the one probability sums weights up to the number, the other one is what is missing to one
  have hlt : ∀ v, r.probLt v = d.probGt (-v) := by
    intro v
    rw [probLt_eq_mass, h, probGt_eq_mass _ htotal]
    exact Table.mass_mirror (p := (· < v)) (q := (-v < ·)) (fun u => neg_lt) _
  have hlte : ∀ v, r.probLte v = d.probGte (-v) := by
    intro v
    rw [probLte_eq_mass, h, probGte_eq_mass _ htotal]
    exact Table.mass_mirror (p := (· ≤ v)) (q := (-v ≤ ·)) (fun u => neg_le) _
  constructor
  case entries_eq => exact hentries
  case least_eq =>
    have hhead := r.head?_entries
    rw [hentries, List.head?_reverse, List.getLast?_map,
      List.getLast?_eq_some_getLast d.occupied] at hhead
    exact (Option.some.inj hhead).symm
  case greatest_eq =>
    have hlast := r.getLast?_entries
    rw [hentries, List.getLast?_reverse, List.head?_map,
      List.head?_eq_some_head d.occupied] at hlast
    exact (Option.some.inj hlast).symm
  case mean_eq => rw [← mean_table, h, Table.mean_mirror, mean_table]
  case variance_eq => rw [← variance_table, h, Table.variance_mirror, variance_table]
  case modes_eq =>
    show modesOf r.table.entries = _
    rw [hentries, modesOf_reverse, modesOf_relabel]
    rfl
  case prob_eq =>
    intro v
    rw [prob, h, Table.weight_mirror, prob]
  case probLt_eq => exact hlt
  case probLte_eq => exact hlte
  case probGte_eq =>
    intro v
    rw [probGte, hlt, probGt, sub_sub_cancel]
  case probGt_eq =>
    intro v
    rw [probGt, hlte, probGte, sub_sub_cancel]

/-! ## Rolls of formulas -/

/-- A number that is added to a formula shifts its roll: all outcomes of the table and of the
running sums, the ends, the median, the modes, the mean, every quantile and every outcome for a draw
move by the number, and the variance stays. Minus one times a formula mirrors its roll: the ends
change places and signs, the mean changes its sign, the modes change theirs and their order, the
variance stays, and the numbers below a number are as probable as those above its negative. -/
theorem shift_and_mirror (f : Formula) (d : Roll) (hd : ofFormula? f = .ok d) :
    (∀ c : Int, ∃ r, ofFormula? (.join .sum f [.constant c]) = .ok r ∧
      r.IsRelabelling (· + c) d ∧ r.mean = d.mean + c ∧ r.variance = d.variance) ∧
    ∃ r, ofFormula? (.join .product (.constant (-1)) [f]) = .ok r ∧ r.IsMirror d := by
  obtain ⟨hlaw, -⟩ := ofFormula?_eq_ok_iff.1 hd
  have hdistribution := Formula.isDistribution_law f hlaw
  constructor
  · intro c
    have hshifted : (Formula.join .sum f [.constant c]).law = .ok (d.table.shift c) := by
      rw [Formula.law_shifted, hlaw]
      rfl
    obtain ⟨r, hr, htable⟩ := exists_of_law hshifted
    refine ⟨r, hr, isRelabelling_of_entries (by rw [htable]; rfl), ?_, ?_⟩
    · rw [← mean_table, htable, Table.mean_shift hdistribution, mean_table]
    · rw [← variance_table, htable, Table.variance_shift hdistribution, variance_table]
  · have hmirrored : (Formula.join .product (.constant (-1)) [f]).law = .ok d.table.mirror := by
      rw [Formula.law_mirrored, hlaw]
      rfl
    obtain ⟨r, hr, htable⟩ := exists_of_law hmirrored
    exact ⟨r, hr, isMirror_of_table htable hdistribution.total⟩

/-- A die with the faces one to three, with five taken away, and mirrored. -/
theorem shift_and_mirror_of_die :
    (∃ r, ofFormula? (.join .sum (.die ⟨1, 3, by decide⟩) [.constant (-5)]) = .ok r ∧
      r.least = -4 ∧ r.median = -3 ∧ r.modes = [-4, -3, -2] ∧ r.mean = -3 ∧ r.variance = 2 / 3 ∧
      r.sample .one = .ok (-2)) ∧
    ∃ r, ofFormula? (.join .product (.constant (-1)) [.die ⟨1, 3, by decide⟩]) = .ok r ∧
      r.least = -3 ∧ r.modes = [-3, -2, -1] ∧ r.probLt (-2) = 1 / 3 ∧ r.probLte (-2) = 2 / 3 := by
  obtain ⟨hshift, mirrored, hmirrored, hmirror⟩ :=
    shift_and_mirror (.die ⟨1, 3, by decide⟩) _ rfl
  obtain ⟨shifted, hshifted, hrelabel, hmean, hvariance⟩ := hshift (-5)
  refine ⟨⟨shifted, hshifted, hrelabel.least_eq.trans (by decide +kernel),
    hrelabel.median_eq.trans (by decide +kernel), hrelabel.modes_eq.trans (by decide +kernel),
    hmean.trans (by decide +kernel), hvariance.trans (by decide +kernel),
    (hrelabel.sample_eq .one).trans (by decide +kernel)⟩, mirrored, hmirrored,
    hmirror.least_eq.trans (by decide +kernel), hmirror.modes_eq.trans (by decide +kernel),
    (hmirror.probLt_eq (-2)).trans (by decide +kernel),
    (hmirror.probLte_eq (-2)).trans (by decide +kernel)⟩

end Roll

end DiceLaw
