import DiceLaw.Proofs.Law.Combination

/-!
# Tuples of independent outcomes

Tables that are combined from left to right add up weights after every step. What comes out is the
same as if all tuples of outcomes were listed, one outcome of each table, and the products of their
weights were added up at the end. Only division can fail: when a table after the first has zero
among its outcomes.

## Main definitions

* `Table.tuples`: the tuples of outcomes, one of each table
* `Table.tupleWeight`: the product of the weights in a tuple
* `Operator.combineAll`: the outcomes of a tuple, combined from left to right

## Main results

* `Table.expectation_foldl_combine`, `Table.expectation_foldl_operator`: combined tables, by their
  tuples
* `Table.foldlM_convolve`: when tables can be combined under an operator
* `Table.convolveAll_by_tuples`: the law of tables that are combined under an operator
-/

namespace DiceLaw

/-- The outcomes of a tuple, combined from left to right; zero if there are none. -/
def Operator.combineAll (op : Operator) : List Int → Int
  | [] => 0
  | k :: ks => ks.foldl op.combine k

namespace Table

variable {t a b : Table} {tables rest : List Table} {v : Int} {op : Operator}

/-! ## Tuples -/

/-- The tuples of outcomes, one outcome of each table. -/
def tuples : List Table → Finset (List Int)
  | [] => {[]}
  | t :: rest => (t.outcomes.toFinset ×ˢ tuples rest).image fun p => p.1 :: p.2

/-- The product of the weights of the outcomes of a tuple, each in its own table. -/
def tupleWeight (tables : List Table) (ks : List Int) : Rat :=
  (List.zipWith weight tables ks).prod

theorem mem_tuples_cons {ks : List Int} :
    ks ∈ tuples (t :: rest) ↔ ∃ k ∈ t.outcomes, ∃ tail ∈ tuples rest, ks = k :: tail := by
  simp [tuples, and_assoc, eq_comm]

/-- A tuple has one outcome of each table, in the order of the tables. -/
theorem mem_tuples {ks : List Int} :
    ks ∈ tuples tables ↔ List.Forall₂ (fun k t => k ∈ t.outcomes) ks tables := by
  induction tables generalizing ks with
  | nil => simp [tuples]
  | cons t rest ih => simp [mem_tuples_cons, List.forall₂_cons_right_iff, ih]

/-- A sum over the tuples of several tables runs over the outcomes of the first table, and for each
of them over the tuples of the others. -/
theorem sum_tuples_cons (f : List Int → Rat) (t : Table) (rest : List Table) :
    ∑ ks ∈ tuples (t :: rest), f ks * tupleWeight (t :: rest) ks
      = t.expectation fun k => ∑ ks ∈ tuples rest, f (k :: ks) * tupleWeight rest ks := by
  have hinjective : Function.Injective fun p : Int × List Int => p.1 :: p.2 := by
    rintro ⟨k, ks⟩ ⟨l, ls⟩ h
    obtain ⟨hk, hks⟩ := List.cons.inj h
    exact Prod.ext hk hks
  rw [tuples, Finset.sum_image hinjective.injOn, Finset.sum_product, expectation_eq_sum]
  -- the weight of the outcome in front is a factor of all tuples that begin with it
  refine Finset.sum_congr rfl fun k _ => ?_
  rw [Finset.sum_mul]
  refine Finset.sum_congr rfl fun ks _ => ?_
  simp only [tupleWeight, List.zipWith_cons_cons, List.prod_cons]
  ring

/-! ## Combining from left to right -/

theorem mem_outcomes_foldl_combine {g : Int → Int → Int} :
    v ∈ (rest.foldl (combine g) t).outcomes
      ↔ ∃ k ∈ t.outcomes, ∃ ks ∈ tuples rest, ks.foldl g k = v := by
  induction rest generalizing t with
  | nil => simp [tuples]
  | cons next rest ih =>
    rw [List.foldl_cons, ih]
    simp only [mem_outcomes_combine, mem_tuples_cons]
    constructor
    · rintro ⟨_, ⟨k, hk, l, hl, rfl⟩, ks, hks, rfl⟩
      exact ⟨k, hk, l :: ks, ⟨l, hl, ks, hks, rfl⟩, rfl⟩
    · rintro ⟨k, hk, _, ⟨l, hl, ks, hks, rfl⟩, rfl⟩
      exact ⟨g k l, ⟨k, hk, l, hl, rfl⟩, ks, hks, rfl⟩

/-- Adding up after every step is adding up over all tuples at the end. -/
theorem expectation_foldl_combine (g : Int → Int → Int) (t : Table) (rest : List Table)
    (f : Int → Rat) :
    (rest.foldl (combine g) t).expectation f
      = t.expectation fun k =>
          ∑ ks ∈ tuples rest, f (ks.foldl g k) * tupleWeight rest ks := by
  induction rest generalizing t with
  | nil => simp [tuples, tupleWeight]
  | cons next rest ih =>
    -- the first two tables are combined, and their outcome begins the tuples of the others
    rw [List.foldl_cons, ih, expectation_combine]
    refine expectation_congr fun k _ => ?_
    rw [sum_tuples_cons]
    rfl

/-- The tables of an operator come out where their tuples do. -/
theorem mem_outcomes_foldl_operator {first : Table} :
    v ∈ (rest.foldl (combine op.combine) first).outcomes
      ↔ ∃ ks ∈ tuples (first :: rest), op.combineAll ks = v := by
  rw [mem_outcomes_foldl_combine]
  simp only [mem_tuples_cons]
  constructor
  · rintro ⟨k, hk, ks, hks, rfl⟩
    exact ⟨k :: ks, ⟨k, hk, ks, hks, rfl⟩, rfl⟩
  · rintro ⟨_, ⟨k, hk, ks, hks, rfl⟩, rfl⟩
    exact ⟨k, hk, ks, hks, rfl⟩

theorem expectation_foldl_operator (op : Operator) (first : Table) (rest : List Table)
    (f : Int → Rat) :
    (rest.foldl (combine op.combine) first).expectation f
      = ∑ ks ∈ tuples (first :: rest), f (op.combineAll ks) * tupleWeight (first :: rest) ks := by
  rw [sum_tuples_cons fun ks => f (op.combineAll ks), expectation_foldl_combine]
  rfl

/-! ## Failures -/

theorem outcomes_combine_ne_nil {g : Int → Int → Int} (ha : a.outcomes ≠ [])
    (hb : b.outcomes ≠ []) : (combine g a b).outcomes ≠ [] := by
  obtain ⟨x, hx⟩ := List.exists_mem_of_ne_nil _ ha
  obtain ⟨y, hy⟩ := List.exists_mem_of_ne_nil _ hb
  exact List.ne_nil_of_mem (mem_outcomes_combine.2 ⟨x, hx, y, hy, rfl⟩)

/-- Two tables fail if they are divided and the second has zero among its outcomes. -/
theorem convolve_eq (ha : a.outcomes ≠ []) (b : Table) :
    convolve op a b =
      if op = .quotient ∧ 0 ∈ b.outcomes then .error .divisionByZero
      else .ok (combine op.combine a b) := by
  have hoccupied : a.isEmpty = false := by simpa [isEmpty, outcomes] using ha
  rw [convolve]
  congr 1
  simp [meetsFailure, hoccupied, Operator.failsOn, and_comm]

/-- Tables fail if they are divided and one after the first has zero among its outcomes. -/
theorem foldlM_convolve (ha : a.outcomes ≠ []) (hrest : ∀ t ∈ rest, t.outcomes ≠ []) :
    rest.foldlM (convolve op) a =
      if op = .quotient ∧ ∃ t ∈ rest, 0 ∈ t.outcomes then .error .divisionByZero
      else .ok (rest.foldl (combine op.combine) a) := by
  induction rest generalizing a with
  | nil => simp [pure, Except.pure]
  | cons next rest ih =>
    obtain ⟨hnext, hothers⟩ := List.forall_mem_cons.1 hrest
    rw [List.foldlM_cons, convolve_eq ha]
    by_cases hfails : op = .quotient ∧ 0 ∈ next.outcomes
    · rw [if_pos hfails, if_pos ⟨hfails.1, next, List.mem_cons_self, hfails.2⟩]
      rfl
    · -- the first two tables have a result, which stands in for both
      rw [if_neg hfails]
      show rest.foldlM (convolve op) (combine op.combine a next) = _
      have hsame : (op = .quotient ∧ ∃ t ∈ next :: rest, 0 ∈ t.outcomes)
          ↔ op = .quotient ∧ ∃ t ∈ rest, 0 ∈ t.outcomes := by
        rw [List.exists_mem_cons_iff]
        tauto
      rw [ih (outcomes_combine_ne_nil ha hnext) hothers, List.foldl_cons, if_congr hsame rfl rfl]

/-! ## The law -/

/-- The law of independent tables under an operator. Each weight is the sum, over the tuples that
come out at the number, of the products of their weights, and the outcomes are all that tuples can
come out at. Only a division by a table that has zero among its outcomes has no law. -/
theorem convolveAll_by_tuples (op : Operator) (first : Table) (rest : List Table)
    (hoccupied : ∀ t ∈ first :: rest, t.outcomes ≠ []) :
    (convolveAll op (first :: rest) = .error .divisionByZero
      ↔ op = .quotient ∧ ∃ t ∈ rest, 0 ∈ t.outcomes) ∧
    (¬(op = .quotient ∧ ∃ t ∈ rest, 0 ∈ t.outcomes) →
      ∃ t, convolveAll op (first :: rest) = .ok t ∧ ∀ v,
        (v ∈ t.outcomes ↔ ∃ ks ∈ tuples (first :: rest), op.combineAll ks = v) ∧
        t.weight v = ∑ ks ∈ tuples (first :: rest) with op.combineAll ks = v,
          tupleWeight (first :: rest) ks) := by
  obtain ⟨hfirst, hrest⟩ := List.forall_mem_cons.1 hoccupied
  have hall : convolveAll op (first :: rest) = _ := foldlM_convolve hfirst hrest
  constructor
  · rw [hall]
    split <;> simp_all
  · intro hfails
    refine ⟨_, hall.trans (if_neg hfails), fun v => ⟨mem_outcomes_foldl_operator, ?_⟩⟩
    exact weight_eq_sum_cases (expectation_foldl_operator op first rest) v

/-- A coin with the faces one and two, halved, comes out at one either way. A division by a coin
with the faces zero and two has no law. -/
theorem convolveAll_by_tuples_of_coin :
    (∃ t, convolveAll .quotient [gather [(1, 1 / 2), (2, 1 / 2)], sure 2] = .ok t ∧
      t.weight 1 = 1) ∧
    convolveAll .quotient [sure 2, gather [(0, 1 / 2), (2, 1 / 2)]] = .error .divisionByZero := by
  constructor
  · obtain ⟨t, ht, hlaw⟩ :=
      (convolveAll_by_tuples .quotient (gather [(1, 1 / 2), (2, 1 / 2)]) [sure 2]
        (by decide)).2 (by decide)
    refine ⟨t, ht, (hlaw 1).2.trans ?_⟩
    decide +kernel
  · exact (convolveAll_by_tuples .quotient (sure 2) [gather [(0, 1 / 2), (2, 1 / 2)]]
      (by decide)).1.2 (by decide)

end Table

end DiceLaw
