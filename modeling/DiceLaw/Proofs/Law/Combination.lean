import DiceLaw.Proofs.Law.Expectation
import DiceLaw.Table.Convolution
import Mathlib.Algebra.BigOperators.Group.Finset.Sigma

/-!
# Expectations under the operations on tables

Each operation on tables has a rule for its outcomes and a rule for its expectations. As a table is
known by both, the rules give the laws of the operations: independent tables are combined in any
grouping under an associative function, and combining distributes over sums of tables.

## Main definitions

* `Table.pairwise`: the weights that arise at the results of all pairs of entries

## Main results

* `Table.mem_outcomes_combine`, `Table.expectation_combine`, `Table.expectation_combine_mul`:
  independent tables
* `Table.combine_eq_gather`, `Table.gather_perm`: pairs of outcomes, in any order
* `Table.combine_comm`, `Table.combine_assoc`, `Table.combine_add`, `Table.combine_sure_left`:
  their laws
* `Table.weight_combine_add`: the weights of a sum of independent tables
-/

namespace DiceLaw

namespace Table

variable {t a b : Table} {v : Int}

/-! ## No outcome, and a sure one -/

@[simp] theorem outcomes_empty : empty.outcomes = [] := rfl

@[simp] theorem expectation_empty (f : Int → Rat) : empty.expectation f = 0 := rfl

@[simp] theorem outcomes_sure (v : Int) : (sure v).outcomes = [v] := rfl

@[simp] theorem expectation_sure (v : Int) (f : Int → Rat) : (sure v).expectation f = f v := by
  show f v * 1 + 0 = f v
  ring

theorem eq_empty_of_isEmpty (h : t.isEmpty = true) : t = empty :=
  ext_entries (List.isEmpty_iff.1 h)

/-! ## Scaling, filtering and taking sizes -/

/-- Entries that are moved by a function, with their weights multiplied by a factor. -/
theorem expectationOver_map (f : Int → Rat) {move : Entry → Entry} {k : Int → Int} {factor : Rat}
    (hmove : ∀ e, move e = (k e.1, factor * e.2)) (entries : List Entry) :
    expectationOver f (entries.map move)
      = factor * expectationOver (fun v => f (k v)) entries := by
  induction entries with
  | nil => simp [expectationOver]
  | cons e rest ih =>
    rw [List.map_cons, hmove, expectationOver, expectationOver, ih]
    ring

@[simp] theorem mem_outcomes_scale {factor : Rat} :
    v ∈ (t.scale factor).outcomes ↔ v ∈ t.outcomes := by
  simp [scale, outcomes]

theorem expectation_scale (factor : Rat) (t : Table) (f : Int → Rat) :
    (t.scale factor).expectation f = factor * t.expectation f :=
  expectationOver_map f (fun e => by rw [mul_comm]) t.entries

@[simp] theorem mem_outcomes_filter {p : Int → Bool} :
    v ∈ (t.filter p).outcomes ↔ v ∈ t.outcomes ∧ p v = true := by
  simp [filter, outcomes]

theorem expectation_filter (p : Int → Bool) (t : Table) (f : Int → Rat) :
    (t.filter p).expectation f = t.expectation fun v => if p v then f v else 0 := by
  show expectationOver f (t.entries.filter fun e => p e.1) = expectationOver _ t.entries
  induction t.entries with
  | nil => rfl
  | cons e rest ih =>
    rw [List.filter_cons, expectationOver]
    split
    · rw [expectationOver, ih]
    · rw [ih, zero_mul, zero_add]

theorem weight_filter (p : Int → Bool) (t : Table) (v : Int) :
    (t.filter p).weight v = if p v then t.weight v else 0 := by
  by_cases hv : v ∈ t.outcomes ∧ p v = true
  · rw [if_pos hv.2]
    obtain ⟨w, hw⟩ := mem_outcomes.1 hv.1
    rw [weight_of_mem hw, weight_of_mem (List.mem_filter.2 ⟨hw, hv.2⟩)]
  · rw [weight_of_notMem (mt mem_outcomes_filter.1 hv)]
    split
    · exact (weight_of_notMem fun h => hv ⟨h, ‹_›⟩).symm
    · rfl

@[simp] theorem mem_outcomes_absolute :
    v ∈ t.absolute.outcomes ↔ ∃ u ∈ t.outcomes, (u.natAbs : Int) = v := by
  rw [absolute, mem_outcomes_gather]
  simp [outcomes]

theorem expectation_absolute (t : Table) (f : Int → Rat) :
    t.absolute.expectation f = t.expectation fun v => f v.natAbs := by
  rw [absolute, expectation_gather,
    expectationOver_map f (k := fun v => v.natAbs) (fun e => by rw [one_mul]), one_mul]
  rfl

/-! ## Sums of several tables -/

theorem weight_add (a b : Table) (v : Int) : (a + b).weight v = a.weight v + b.weight v := by
  simp only [weight_eq_expectation, expectation_add]

theorem mem_outcomes_foldr_add {α : Type} {F : α → Table} {parts : List α} :
    v ∈ (parts.foldr (fun a t => F a + t) empty).outcomes
      ↔ ∃ a ∈ parts, v ∈ (F a).outcomes := by
  induction parts with
  | nil => simp
  | cons a rest ih => rw [List.foldr_cons, mem_outcomes_add, ih, List.exists_mem_cons_iff]

/-- Tables that count with the weights of entries. -/
theorem expectation_foldr_add {F : Entry → Table} {f h : Int → Rat}
    (hF : ∀ e, (F e).expectation f = e.2 * h e.1) (entries : List Entry) :
    (entries.foldr (fun e t => F e + t) empty).expectation f = expectationOver h entries := by
  induction entries with
  | nil => rfl
  | cons e rest ih =>
    rw [List.foldr_cons, expectation_add, hF, ih, expectationOver, mul_comm]

/-! ## Combining -/

theorem mem_outcomes_row {g : Int → Int → Int} {e : Entry} :
    v ∈ (row g e t).outcomes ↔ ∃ y ∈ t.outcomes, g e.1 y = v := by
  rw [row, mem_outcomes_gather]
  simp [outcomes]

theorem expectation_row (g : Int → Int → Int) (e : Entry) (t : Table) (f : Int → Rat) :
    (row g e t).expectation f = e.2 * t.expectation fun y => f (g e.1 y) := by
  rw [row, expectation_gather, expectationOver_map f fun e => rfl]
  rfl

/-- What comes of independent tables: each outcome of the first with each of the second. -/
theorem mem_outcomes_combine {g : Int → Int → Int} :
    v ∈ (combine g a b).outcomes ↔ ∃ x ∈ a.outcomes, ∃ y ∈ b.outcomes, g x y = v := by
  rw [combine, mem_outcomes_foldr_add]
  simp only [mem_outcomes_row]
  simp [outcomes]

/-- The expectation under independent tables is that of the first over that of the second. -/
theorem expectation_combine (g : Int → Int → Int) (a b : Table) (f : Int → Rat) :
    (combine g a b).expectation f = a.expectation fun x => b.expectation fun y => f (g x y) :=
  expectation_foldr_add (fun e => expectation_row g e b f) a.entries

/-- The expectation of a product of one factor for each table is the product of the expectations. -/
theorem expectation_combine_mul {g : Int → Int → Int} {f f₁ f₂ : Int → Rat}
    (h : ∀ x y, f (g x y) = f₁ x * f₂ y) (a b : Table) :
    (combine g a b).expectation f = a.expectation f₁ * b.expectation f₂ := by
  have hinner : ∀ x : Int, (b.expectation fun y => f (g x y)) = b.expectation f₂ * f₁ x := by
    intro x
    simp only [h]
    rw [expectation_const_mul, mul_comm]
  rw [expectation_combine]
  simp only [hinner]
  rw [expectation_const_mul, mul_comm]

/-- Independent tables may be looked at in either order. -/
theorem expectation_swap (a b : Table) (f : Int → Int → Rat) :
    (a.expectation fun x => b.expectation fun y => f x y)
      = b.expectation fun y => a.expectation fun x => f x y := by
  simp only [expectation_eq_sum, Finset.sum_mul]
  rw [Finset.sum_comm]
  refine Finset.sum_congr rfl fun y _ => Finset.sum_congr rfl fun x _ => ?_
  ring

/-! ## Gathering -/

theorem add_empty (t : Table) : t + empty = t := by
  refine ext_expectation (fun v => ?_) fun f => ?_
  · simp
  · rw [expectation_add, expectation_empty, add_zero]

/-- A weight is added to a sum on either side. -/
theorem insert_add (v : Int) (w : Rat) (a b : Table) : a.insert v w + b = a + b.insert v w := by
  refine ext_expectation (fun u => ?_) fun f => ?_
  · simp only [mem_outcomes_add, mem_outcomes_insert, or_assoc, or_left_comm]
  · simp only [expectation_add, expectation_insert]
    ring

theorem gather_append (xs ys : List Entry) : gather (xs ++ ys) = gather xs + gather ys := by
  refine ext_expectation (fun v => ?_) fun f => ?_
  · simp
  · rw [expectation_add, expectation_gather, expectation_gather, expectation_gather,
      expectationOver_eq_sum_map, expectationOver_eq_sum_map, expectationOver_eq_sum_map,
      List.map_append, List.sum_append]

/-- Weights may arise in any order. -/
theorem gather_perm {xs ys : List Entry} (h : xs.Perm ys) : gather xs = gather ys := by
  refine ext_expectation (fun v => ?_) fun f => ?_
  · rw [mem_outcomes_gather, mem_outcomes_gather, (h.map _).mem_iff]
  · rw [expectation_gather, expectation_gather, expectationOver_eq_sum_map,
      expectationOver_eq_sum_map, (h.map _).sum_eq]

/-- The weights that arise at the results of all pairs of entries. -/
def pairwise (g : Int → Int → Int) (xs ys : List Entry) : List Entry :=
  xs.flatMap fun d => ys.map fun e => (g d.1 e.1, d.2 * e.2)

theorem combine_eq_gather (g : Int → Int → Int) (a b : Table) :
    combine g a b = gather (pairwise g a.entries b.entries) := by
  rw [combine, pairwise]
  induction a.entries with
  | nil => rfl
  | cons d rest ih => rw [List.foldr_cons, ih, List.flatMap_cons, gather_append, row]

theorem eq_combine_of_convolve {op : Operator} (h : convolve op a b = .ok t) :
    t = combine op.combine a b := by
  rw [convolve] at h
  split at h
  · cases h
  · exact (Except.ok.inj h).symm

/-! ## Laws of combining -/

/-- A sure outcome that the function ignores can be left out. -/
theorem combine_sure_left {g : Int → Int → Int} (h : ∀ y, g v y = y) (b : Table) :
    combine g (sure v) b = b := by
  refine ext_expectation (fun u => ?_) fun f => ?_
  · simp [mem_outcomes_combine, h]
  · simp only [expectation_combine, expectation_sure, h]

/-- Independent tables can be taken in either order under a commutative function. -/
theorem combine_comm {g : Int → Int → Int} (h : ∀ x y, g x y = g y x) (a b : Table) :
    combine g a b = combine g b a := by
  refine ext_expectation (fun v => ?_) fun f => ?_
  · simp only [mem_outcomes_combine]
    constructor
    · rintro ⟨x, hx, y, hy, rfl⟩
      exact ⟨y, hy, x, hx, h y x⟩
    · rintro ⟨y, hy, x, hx, rfl⟩
      exact ⟨x, hx, y, hy, h x y⟩
  · rw [expectation_combine, expectation_combine, expectation_swap]
    simp only [h]

/-- Independent tables can be grouped in any way under an associative function. -/
theorem combine_assoc {g : Int → Int → Int} (h : ∀ x y z, g (g x y) z = g x (g y z))
    (a b c : Table) : combine g (combine g a b) c = combine g a (combine g b c) := by
  refine ext_expectation (fun v => ?_) fun f => ?_
  · simp only [mem_outcomes_combine]
    constructor
    · rintro ⟨_, ⟨x, hx, y, hy, rfl⟩, z, hz, rfl⟩
      exact ⟨x, hx, _, ⟨y, hy, z, hz, rfl⟩, (h x y z).symm⟩
    · rintro ⟨x, hx, _, ⟨y, hy, z, hz, rfl⟩, rfl⟩
      exact ⟨_, ⟨x, hx, y, hy, rfl⟩, z, hz, h x y z⟩
  · simp only [expectation_combine, h]

/-- Combining distributes over a sum of tables. -/
theorem combine_add (g : Int → Int → Int) (a b c : Table) :
    combine g a (b + c) = combine g a b + combine g a c := by
  refine ext_expectation (fun v => ?_) fun f => ?_
  · simp only [mem_outcomes_combine, mem_outcomes_add, or_and_right, exists_or, and_or_left]
  · simp only [expectation_combine, expectation_add, expectation_add_fun]

/-- The weight of a sum of independent outcomes, by the outcome of the first table. -/
theorem weight_combine_add (a b : Table) (v : Int) :
    (combine (· + ·) a b).weight v = a.expectation fun x => b.weight (v - x) := by
  have hsum : ∀ x y : Int, x + y = v ↔ y = v - x := by
    intro x y
    omega
  simp only [weight_eq_expectation, expectation_combine, hsum]

end Table

end DiceLaw
