import DiceLaw.Proofs.Law.Combination
import DiceLaw.Proofs.Notation.Meaning

/-!
# Mirror images

Minus one as the first factor of a product mirrors the law of the product at zero. Rounding is the
same on both sides of zero, so that a first dividend that is mirrored mirrors a chain of quotients
as well, however many divisors follow.

## Main definitions

* `Table.mirror`: the table of the negated outcomes

## Main results

* `Table.weight_mirror`: the weight of a number in the mirror image
* `nearestQuotient_neg`: rounding is odd in the dividend
* `Joint.law_mirror`: products and quotients of a mirrored first part
* `Formula.law_negated`: minus one in front of the factors of a product
* `Formula.law_subtracted`: a mirrored last part of a sum is subtracted
-/

namespace DiceLaw

/-! ## Rounding -/

/-- A dividend and its negative have quotients of the same size, on different sides of zero. -/
theorem nearestQuotient_neg {b : Int} (hb : b ≠ 0) (a : Int) :
    nearestQuotient (-a) b = -nearestQuotient a b := by
  unfold nearestQuotient
  rw [Int.natAbs_neg]
  by_cases ha : a = 0
  · -- zero has no side, and its quotient is zero
    have hsize : ¬ b.natAbs ≤ 0 := by omega
    subst ha
    simp [hsize]
  · have hside : (-a < 0) = ¬ (a < 0) := by
      rw [eq_iff_iff]
      omega
    simp only [hside]
    by_cases hneg : a < 0 <;> by_cases hdivisor : b < 0 <;> simp [hneg, hdivisor]

namespace Operator

/-- The operators that mirror their result when their first operand is mirrored. -/
def isOdd : Operator → Bool
  | .product | .quotient => true
  | _ => false

theorem combine_neg {op : Operator} (hop : op.isOdd = true) {y : Int}
    (hy : op.failsOn y = false) (x : Int) : op.combine (-x) y = -op.combine x y := by
  cases op with
  | product => exact Int.neg_mul x y
  | quotient => exact nearestQuotient_neg (by simpa [failsOn] using hy) x
  | _ => cases hop

end Operator

namespace Table

variable {t a b : Table} {v : Int}

/-! ## The mirror image of a table -/

/-- The negated outcomes with their weights. -/
def mirror (t : Table) : Table := gather (t.entries.map fun e => (-e.1, e.2))

@[simp] theorem mem_outcomes_mirror : v ∈ t.mirror.outcomes ↔ -v ∈ t.outcomes := by
  rw [mirror, mem_outcomes_gather]
  simp only [outcomes, List.map_map, List.mem_map, Function.comp_def]
  simp only [neg_eq_iff_eq_neg]

theorem expectation_mirror (t : Table) (f : Int → Rat) :
    t.mirror.expectation f = t.expectation fun v => f (-v) := by
  rw [mirror, expectation_gather,
    expectationOver_map f (k := fun v => -v) (fun e => by rw [one_mul]), one_mul]
  rfl

theorem weight_mirror (t : Table) (v : Int) : t.mirror.weight v = t.weight (-v) := by
  simp only [weight_eq_expectation, expectation_mirror, neg_eq_iff_eq_neg]

/-- Minus one times a table is its mirror image. -/
theorem combine_minus_one (t : Table) : combine (· * ·) (sure (-1)) t = t.mirror := by
  refine ext_expectation (fun v => ?_) fun f => ?_
  · simp [mem_outcomes_combine, neg_eq_iff_eq_neg]
  · rw [expectation_combine, expectation_sure, expectation_mirror]
    simp

/-- A function that is odd in its first argument mirrors what comes of independent tables. -/
theorem combine_mirror {g : Int → Int → Int}
    (h : ∀ x ∈ a.outcomes, ∀ y ∈ b.outcomes, g (-x) y = -g x y) :
    combine g a.mirror b = (combine g a b).mirror := by
  refine ext_expectation (fun v => ?_) fun f => ?_
  · simp only [mem_outcomes_combine, mem_outcomes_mirror]
    constructor
    · rintro ⟨x, hx, y, hy, rfl⟩
      exact ⟨-x, hx, y, hy, by rw [← neg_eq_iff_eq_neg, ← h _ hx y hy, neg_neg]⟩
    · rintro ⟨x, hx, y, hy, hv⟩
      exact ⟨-x, by rwa [neg_neg], y, hy, by rw [h x hx y hy, hv, neg_neg]⟩
  · rw [expectation_mirror, expectation_combine, expectation_combine, expectation_mirror]
    refine expectation_congr fun x hx => expectation_congr fun y hy => ?_
    rw [h x hx y hy]

/-- A mirrored table that is added is subtracted. -/
theorem combine_add_mirror (a b : Table) :
    combine (· + ·) a b.mirror = combine (· - ·) a b := by
  refine ext_expectation (fun v => ?_) fun f => ?_
  · simp only [mem_outcomes_combine, mem_outcomes_mirror]
    constructor
    · rintro ⟨x, hx, y, hy, rfl⟩
      exact ⟨x, hx, -y, hy, sub_neg_eq_add x y⟩
    · rintro ⟨x, hx, y, hy, rfl⟩
      exact ⟨x, hx, -y, by rwa [neg_neg], (sub_eq_add_neg x y).symm⟩
  · simp only [expectation_combine, expectation_mirror, sub_eq_add_neg]

theorem isEmpty_mirror (t : Table) : t.mirror.isEmpty = t.isEmpty := by
  have hiff : ∀ t : Table, t.isEmpty = true ↔ ∀ v, v ∉ t.outcomes := by
    intro t
    rw [isEmpty, List.isEmpty_iff, ← List.map_eq_nil_iff, List.eq_nil_iff_forall_not_mem]
    rfl
  rw [Bool.eq_iff_iff, hiff, hiff]
  simp only [mem_outcomes_mirror]
  constructor
  · intro h v
    simpa using h (-v)
  · intro h v
    exact h (-v)

/-- Only divisions fail. -/
theorem convolve_eq_ok {op : Operator} (hop : op ≠ .quotient) (a b : Table) :
    convolve op a b = .ok (combine op.combine a b) := by
  have hfails : ∀ v, op.failsOn v = false := fun v => by simp [Operator.failsOn, hop]
  rw [convolve, if_neg (by simp [meetsFailure, hfails])]

theorem foldlM_convolve_eq_ok {op : Operator} (hop : op ≠ .quotient) (rest : List Table)
    (t : Table) : rest.foldlM (convolve op) t = .ok (rest.foldl (combine op.combine) t) := by
  induction rest generalizing t with
  | nil => rfl
  | cons next rest ih =>
    rw [List.foldlM_cons, convolve_eq_ok hop]
    exact ih _

theorem convolve_mirror {op : Operator} (hop : op.isOdd = true) (a b : Table) :
    convolve op a.mirror b = (convolve op a b).map mirror := by
  have hmeets : meetsFailure op a.mirror b = meetsFailure op a b := by
    rw [meetsFailure, isEmpty_mirror, meetsFailure]
  rw [convolve, convolve, hmeets]
  split
  · rfl
  · rename_i hfails
    rw [Except.map, combine_mirror]
    intro x hx y hy
    refine Operator.combine_neg hop ?_ x
    -- both tables have outcomes, so that a divisor of zero would fail
    rw [Bool.eq_false_iff]
    intro hy0
    refine hfails ?_
    rw [meetsFailure, Bool.and_eq_true, List.any_eq_true, Bool.not_eq_true', isEmpty,
      List.isEmpty_eq_false_iff]
    exact ⟨fun hempty => by simp [outcomes, hempty] at hx, y, hy, hy0⟩

/-- Tables that are taken together behind a mirrored one. -/
theorem foldlM_convolve_mirror {op : Operator} (hop : op.isOdd = true) (rest : List Table)
    (t : Table) :
    rest.foldlM (convolve op) t.mirror = (rest.foldlM (convolve op) t).map mirror := by
  induction rest generalizing t with
  | nil => rfl
  | cons next rest ih =>
    rw [List.foldlM_cons, List.foldlM_cons, convolve_mirror hop]
    cases convolve op t next with
    | error e => rfl
    | ok u => exact ih u

end Table

/-! ## Joined parts -/

namespace Joint

/-- The joints that mirror their law when their first part is mirrored. -/
def isOdd : Joint → Bool
  | .product | .quotient => true
  | _ => false

/-- Products and quotients behind a mirrored first part. -/
theorem law_mirror {joint : Joint} (hj : joint.isOdd = true) (t : Table) (rest : List Table) :
    joint.law (t.mirror :: rest) = (joint.law (t :: rest)).map Table.mirror := by
  cases joint with
  | product => exact Table.foldlM_convolve_mirror rfl rest t
  | quotient => exact Table.foldlM_convolve_mirror rfl rest t
  | _ => cases hj

/-- Minus one in front of the factors of a product mirrors it. -/
theorem law_minus_one (t : Table) (rest : List Table) :
    product.law (.sure (-1) :: t :: rest) = (product.law (t :: rest)).map Table.mirror := by
  rw [← law_mirror rfl]
  have hfirst : Table.convolve .product (.sure (-1)) t = .ok t.mirror := by
    rw [Table.convolve_eq_ok (by decide), ← Table.combine_minus_one]
    rfl
  show ((t :: rest).foldlM (Table.convolve .product) (.sure (-1))) = _
  rw [List.foldlM_cons, hfirst]
  rfl

/-- Tables are always summed. -/
theorem law_sum (t : Table) (rest : List Table) :
    sum.law (t :: rest) = .ok (rest.foldl (Table.combine (· + ·)) t) :=
  Table.foldlM_convolve_eq_ok (by decide) rest t

end Joint

namespace Formula

/-- The law of a joint is that of its parts, joined. -/
theorem law_join_laws (joint : Joint) (first : Formula) (rest : List Formula) :
    law (.join joint first rest) = laws (first :: rest) >>= joint.law := by
  rw [law_join, laws]
  cases law first with
  | error e => rfl
  | ok t =>
    cases laws rest with
    | error e => rfl
    | ok ts => rfl

/-- Minus one in front of the factors of a product mirrors the law of the product. -/
theorem law_negated (first : Formula) (rest : List Formula) :
    law (.join .product (.constant (-1)) (first :: rest))
      = (law (.join .product first rest)).map Table.mirror := by
  rw [law_join, law_join]
  show (laws (first :: rest) >>= fun ts => Joint.product.law (.sure (-1) :: ts)) = _
  rw [laws]
  cases law first with
  | error e => rfl
  | ok t =>
    cases laws rest with
    | error e => rfl
    | ok ts => exact Joint.law_minus_one t ts

/-- A mirrored first part mirrors products and quotients. -/
theorem law_join_mirror {joint : Joint} (hj : joint.isOdd = true) {first first' : Formula}
    (h : law first' = (law first).map Table.mirror) (rest : List Formula) :
    law (.join joint first' rest) = (law (.join joint first rest)).map Table.mirror := by
  rw [law_join, law_join, h]
  cases law first with
  | error e => rfl
  | ok t =>
    cases laws rest with
    | error e => rfl
    | ok ts => exact Joint.law_mirror hj t ts

/-- A mirrored part at the end of a sum is subtracted from the sum of the others. -/
theorem law_subtracted {part part' : Formula} (h : law part' = (law part).map Table.mirror)
    (first : Formula) (rest : List Formula) :
    law (.join .sum first (rest ++ [part'])) = do
      let a ← law (.join .sum first rest)
      let t ← law part
      return Table.combine (· - ·) a t := by
  rw [law_join, law_join, laws_eq_mapM, laws_eq_mapM, List.mapM_append]
  simp only [List.mapM_cons, List.mapM_nil, h]
  cases law first with
  | error e => rfl
  | ok t =>
    cases rest.mapM law with
    | error e => rfl
    | ok ts =>
      -- a sum of tables never fails, so that the first failure is that of a part
      cases law part with
      | error e =>
        simp only [bind, Except.bind, Joint.law_sum]
        rfl
      | ok u =>
        simp only [bind, Except.bind, pure, Except.pure, Except.map, Joint.law_sum,
          List.foldl_append, List.foldl_cons, List.foldl_nil, Table.combine_add_mirror]

end Formula

end DiceLaw
