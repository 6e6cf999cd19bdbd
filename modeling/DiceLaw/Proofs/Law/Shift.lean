import DiceLaw.Proofs.Law.Mean
import DiceLaw.Proofs.Law.Signs
import DiceLaw.Table.Cumulative

/-!
# Shifted and mirrored tables

A number that is added to a formula shifts its law: each outcome moves by the number and keeps its
weight and its place. Minus one times a formula mirrors the law: each outcome is negated and keeps
its weight, and the order of the outcomes is turned round.

## Main definitions

* `relabel`: an entry with another outcome
* `Table.shift`: the table of the shifted outcomes

## Main results

* `Table.entries_mirror`: the entries of the mirror image
* `Formula.law_shifted`: a number that is added shifts the law
* `Formula.law_mirrored`: minus one times a formula mirrors its law
-/

namespace DiceLaw

/-- An entry with the outcome replaced, and the same weight. -/
def relabel (g : Int → Int) (e : Entry) : Entry := (g e.1, e.2)

/-- Running sums do not look at the outcomes. -/
theorem runningSums_relabel (g : Int → Int) (start : Rat) (entries : List Entry) :
    runningSums start (entries.map (relabel g)) = (runningSums start entries).map (relabel g) := by
  induction entries generalizing start with
  | nil => rfl
  | cons e rest ih => simp [runningSums, relabel, ih]

namespace Table

variable {t : Table}

/-! ## Shifts -/

/-- Each outcome moved by a number. -/
def shift (c : Int) (t : Table) : Table :=
  ⟨t.entries.map (relabel (· + c)), List.pairwise_map.2 (t.ascending.imp fun h =>
    Int.add_lt_add_right h c)⟩

theorem outcomes_shift (c : Int) (t : Table) : (t.shift c).outcomes = t.outcomes.map (· + c) := by
  rw [outcomes, shift, outcomes, List.map_map, List.map_map]
  rfl

theorem expectation_shift (c : Int) (t : Table) (f : Int → Rat) :
    (t.shift c).expectation f = t.expectation fun v => f (v + c) := by
  rw [expectation, shift,
    expectationOver_map f (k := (· + c)) (fun e => by rw [relabel, one_mul]), one_mul]
  rfl

/-- A sure outcome that is added shifts a table. -/
theorem combine_add_sure (t : Table) (c : Int) : combine (· + ·) t (sure c) = t.shift c := by
  refine ext_expectation (fun v => ?_) fun f => ?_
  · simp [mem_outcomes_combine, outcomes_shift]
  · simp only [expectation_combine, expectation_sure, expectation_shift]

theorem mean_shift (h : t.IsDistribution) (c : Int) : (t.shift c).mean = t.mean + c := by
  rw [← combine_add_sure, mean_combine_add h (isDistribution_sure c), mean_sure]

/-- A shift moves the mean with the outcomes, and leaves the distances from it alone. -/
theorem variance_shift (h : t.IsDistribution) (c : Int) : (t.shift c).variance = t.variance := by
  rw [variance, expectation_shift, mean_shift h, variance]
  simp only [Int.cast_add, add_sub_add_right_eq_sub]

/-! ## Mirror images -/

/-- Weights that are given in ascending order make up a table as they are. -/
theorem gather_of_ascending {entries : List Entry} (h : Ascending entries) :
    gather entries = ⟨entries, h⟩ :=
  ext_expectation (fun _ => mem_outcomes_gather) fun f => expectation_gather f entries

/-- The mirror image has the negated outcomes in the opposite order. -/
theorem entries_mirror (t : Table) :
    t.mirror.entries = (t.entries.map (relabel (-·))).reverse := by
  have hascending : Ascending (t.entries.map (relabel (-·))).reverse :=
    List.pairwise_reverse.2 (List.pairwise_map.2 (t.ascending.imp fun h => Int.neg_lt_neg h))
  have hmirror : t.mirror = gather (t.entries.map (relabel (-·))).reverse :=
    gather_perm (List.reverse_perm _).symm
  rw [hmirror, gather_of_ascending hascending]

theorem mean_mirror (t : Table) : t.mirror.mean = -t.mean := by
  rw [mean, expectation_mirror, mean, neg_eq_neg_one_mul, ← expectation_const_mul]
  simp only [Int.cast_neg, neg_one_mul]

/-- Distances from the mean are the same on both sides. -/
theorem variance_mirror (t : Table) : t.mirror.variance = t.variance := by
  rw [variance, expectation_mirror, mean_mirror, variance]
  simp only [Int.cast_neg, neg_sub_neg, sub_sq_comm t.mean]

/-- The outcomes with a property weigh as much as their negatives. -/
theorem mass_mirror {p q : Int → Prop} [DecidablePred p] [DecidablePred q]
    (h : ∀ v, p (-v) ↔ q v) (t : Table) : t.mirror.mass p = t.mass q := by
  simp only [mass_eq_expectation, expectation_mirror, h]

end Table

/-! ## Formulas -/

namespace Formula

/-- A number that is added shifts the law. -/
theorem law_shifted (f : Formula) (c : Int) :
    law (.join .sum f [.constant c]) = (law f).map (Table.shift c) := by
  rw [law_pair]
  cases law f with
  | error e => rfl
  | ok t =>
    rw [Except.map, ← Table.combine_add_sure]
    exact Joint.law_sum t [.sure c]

/-- Minus one times a formula mirrors its law. -/
theorem law_mirrored (f : Formula) :
    law (.join .product (.constant (-1)) [f]) = (law f).map Table.mirror := by
  rw [law_negated, law_lone]

end Formula

end DiceLaw
