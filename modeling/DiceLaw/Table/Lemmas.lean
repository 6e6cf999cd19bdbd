import DiceLaw.Table.Convolution
import DiceLaw.Table.Expectation

/-!
# Outcomes and expectations of tables

What the operations on tables do to the outcomes, and to the expectation of a function.

## Main results

* `Table.ext_entries`: tables with the same entries are equal
* `Table.mem_outcomes_add`, `Table.expectation_add`: sums of tables
* `Table.mem_outcomes_gather`, `Table.expectation_gather`: gathered weights
* `Table.combine_sure`: sure outcomes combined
-/

namespace DiceLaw

namespace Table

/-- Tables with the same entries are equal. -/
@[ext] theorem ext_entries {a b : Table} (h : a.entries = b.entries) : a = b := by
  cases a
  cases b
  cases h
  rfl

/-! ## Sums of entries -/

theorem mem_map_fst_weave {v u : Int} {w : Rat} {more : List Entry → List Entry} {P : Prop}
    (hmore : ∀ l : List Entry, u ∈ (more l).map (·.1) ↔ P ∨ u ∈ l.map (·.1)) (ys : List Entry) :
    u ∈ (weave v w more ys).map (·.1) ↔ u = v ∨ P ∨ u ∈ ys.map (·.1) := by
  induction ys with
  | nil => simp [weave, hmore []]
  | cons e rest ih =>
    obtain ⟨k, x⟩ := e
    simp only [weave]
    split
    · simp only [List.map_cons, List.mem_cons, ih]
      grind
    · split
      · rename_i hk
        subst hk
        simp only [List.map_cons, List.mem_cons, hmore]
        grind
      · simp only [List.map_cons, List.mem_cons, hmore]

/-- The outcomes of a sum are those of both sides. -/
theorem mem_map_fst_addEntries {u : Int} (xs ys : List Entry) :
    u ∈ (addEntries xs ys).map (·.1) ↔ u ∈ xs.map (·.1) ∨ u ∈ ys.map (·.1) := by
  induction xs generalizing ys with
  | nil => simp [addEntries]
  | cons e rest ih =>
    rw [addEntries, mem_map_fst_weave fun l => ih l]
    simp only [List.map_cons, List.mem_cons, or_assoc]

theorem expectationOver_weave (f : Int → Rat) {v : Int} {w s : Rat}
    {more : List Entry → List Entry}
    (hmore : ∀ l, expectationOver f (more l) = s + expectationOver f l) (ys : List Entry) :
    expectationOver f (weave v w more ys) = f v * w + s + expectationOver f ys := by
  induction ys with
  | nil =>
    simp only [weave, expectationOver, hmore]
    grind
  | cons e rest ih =>
    obtain ⟨k, x⟩ := e
    simp only [weave]
    split
    · simp only [expectationOver, ih]
      grind
    · split
      · rename_i hk
        subst hk
        simp only [expectationOver, hmore]
        grind
      · simp only [expectationOver, hmore]
        grind

theorem expectationOver_addEntries (f : Int → Rat) (xs ys : List Entry) :
    expectationOver f (addEntries xs ys) = expectationOver f xs + expectationOver f ys := by
  induction xs generalizing ys with
  | nil => rw [addEntries, expectationOver, Rat.zero_add]
  | cons e rest ih => rw [addEntries, expectationOver_weave f fun l => ih l, expectationOver]

/-! ## Sums of tables -/

@[simp] theorem mem_outcomes_add {a b : Table} {v : Int} :
    v ∈ (a + b).outcomes ↔ v ∈ a.outcomes ∨ v ∈ b.outcomes :=
  mem_map_fst_addEntries a.entries b.entries

theorem expectation_add (f : Int → Rat) (a b : Table) :
    (a + b).expectation f = a.expectation f + b.expectation f :=
  expectationOver_addEntries f a.entries b.entries

/-! ## Gathered weights -/

theorem mem_outcomes_insert {t : Table} {u v : Int} {w : Rat} :
    u ∈ (t.insert v w).outcomes ↔ u = v ∨ u ∈ t.outcomes := by
  show u ∈ (addEntries [(v, w)] t.entries).map (·.1) ↔ _
  rw [mem_map_fst_addEntries]
  simp [outcomes]

theorem expectation_insert (f : Int → Rat) (v : Int) (w : Rat) (t : Table) :
    (t.insert v w).expectation f = f v * w + t.expectation f := by
  show expectationOver f (addEntries [(v, w)] t.entries) = _
  rw [expectationOver_addEntries, expectationOver, expectationOver, Rat.add_zero]
  rfl

/-- The outcomes of gathered weights are the numbers that weights arise at. -/
@[simp] theorem mem_outcomes_gather {entries : List Entry} {v : Int} :
    v ∈ (gather entries).outcomes ↔ v ∈ entries.map (·.1) := by
  induction entries with
  | nil => simp [outcomes]
  | cons e rest ih => rw [gather_cons, mem_outcomes_insert, ih, List.map_cons, List.mem_cons]

/-- Gathering weights loses none of them. -/
theorem expectation_gather (f : Int → Rat) (entries : List Entry) :
    (gather entries).expectation f = expectationOver f entries := by
  induction entries with
  | nil => rfl
  | cons e rest ih => rw [gather_cons, expectation_insert, ih, expectationOver]

/-! ## Sure outcomes -/

@[simp] theorem combine_sure (f : Int → Int → Int) (a b : Int) :
    combine f (sure a) (sure b) = sure (f a b) := by
  -- one pair of outcomes, of weight one times one
  ext1
  show [(f a b, 1 * 1)] = [(f a b, (1 : Rat))]
  rw [Rat.mul_one]

end Table

end DiceLaw
