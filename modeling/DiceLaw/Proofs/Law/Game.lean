import DiceLaw.Proofs.Law.Distribution

/-!
# The exploding game

An exploding roll is a game. It is rolled once; from a threshold on it is played again, with one
repetition less, and what it then ends at is added. When no repetition is left, the roll is kept.

## Main definitions

* `Table.gameWeight`: the weight with which the game ends at a number
* `Table.GameEnds`: the numbers that the game can end at

## Main results

* `Table.explode_by_game`: an exploding roll is the game, and without a threshold of its own it
  explodes at the greatest outcome
-/

namespace DiceLaw

namespace Table

variable {t : Table} {threshold : Int} {limit : Nat} {v : Int}

/-- The weight with which the game ends at a number, with at most the given number of
repetitions. -/
def gameWeight (t : Table) (threshold : Int) : Nat → Int → Rat
  | 0, v => t.weight v
  | limit + 1, v =>
    (if v < threshold then t.weight v else 0)
      + ∑ key ∈ t.outcomes.toFinset with threshold ≤ key,
          t.weight key * gameWeight t threshold limit (v - key)

/-- The numbers that the game can end at, with at most the given number of repetitions. -/
inductive GameEnds (t : Table) (threshold : Int) : Nat → Int → Prop
  /-- No repetition is left. -/
  | kept {v : Int} (h : v ∈ t.outcomes) : GameEnds t threshold 0 v
  /-- The roll stays below the threshold. -/
  | ended {limit : Nat} {v : Int} (h : v ∈ t.outcomes) (hbelow : v < threshold) :
      GameEnds t threshold (limit + 1) v
  /-- The roll reaches the threshold, and what the game then ends at is added. -/
  | again {limit : Nat} {key u : Int} (h : key ∈ t.outcomes) (hreached : threshold ≤ key)
      (hrest : GameEnds t threshold limit u) : GameEnds t threshold (limit + 1) (key + u)

theorem mem_outcomes_explode :
    v ∈ (t.explode threshold limit).outcomes ↔ GameEnds t threshold limit v := by
  induction limit generalizing v with
  | zero =>
    rw [explode_zero]
    constructor
    · exact .kept
    · rintro ⟨h⟩
      exact h
  | succ limit ih =>
    rw [explode_succ]
    simp only [mem_outcomes_add, mem_outcomes_filter, mem_outcomes_combine, decide_eq_true_eq, ih]
    constructor
    · rintro (⟨h, hbelow⟩ | ⟨key, ⟨h, hreached⟩, u, hrest, rfl⟩)
      · exact .ended h hbelow
      · exact .again h hreached hrest
    · intro h
      cases h with
      | ended h hbelow => exact .inl ⟨h, hbelow⟩
      | again h hreached hrest => exact .inr ⟨_, ⟨h, hreached⟩, _, hrest, rfl⟩

theorem weight_explode (t : Table) (threshold : Int) (limit : Nat) (v : Int) :
    (t.explode threshold limit).weight v = gameWeight t threshold limit v := by
  induction limit generalizing v with
  | zero => rw [explode_zero, gameWeight]
  | succ limit ih =>
    -- the first summand is the roll that ends, the second the game that is played again
    rw [explode_succ, weight_add, weight_filter, weight_combine_add, expectation_filter,
      expectation_eq_sum, gameWeight, Finset.sum_filter]
    simp only [decide_eq_true_eq, ih, ite_mul, zero_mul, mul_comm]

/-- The greatest outcome of a table that has one. -/
theorem greatest?_eq_some (h : t.outcomes ≠ []) :
    ∃ m ∈ t.outcomes, (∀ v ∈ t.outcomes, v ≤ m) ∧ t.greatest? = some m := by
  obtain ⟨e, hlast, hmem, hgreatest⟩ := exists_greatest h
  exact ⟨e.1, hmem, hgreatest, by rw [greatest?, hlast, Option.map_some]⟩

/-- An exploding roll is the game: it ends at the same numbers, with the same weights. A formula
that explodes without a threshold of its own plays the game with the greatest outcome of its body
as the threshold. -/
theorem explode_by_game :
    (∀ (t : Table) (threshold : Int) (limit : Nat) (v : Int),
      (v ∈ (t.explode threshold limit).outcomes ↔ GameEnds t threshold limit v) ∧
      (t.explode threshold limit).weight v = gameWeight t threshold limit v) ∧
    ∀ (body : Formula) (limit : Nat) (t : Table), body.law = .ok t →
      ∃ m ∈ t.outcomes, (∀ v ∈ t.outcomes, v ≤ m) ∧
        Formula.law (.explode body none limit) = .ok (t.explode m limit) := by
  constructor
  · intro t threshold limit v
    exact ⟨mem_outcomes_explode, weight_explode t threshold limit v⟩
  · intro body limit t h
    obtain ⟨m, hm, hgreatest, hsome⟩ :=
      greatest?_eq_some (Formula.isDistribution_law body h).outcomes_ne_nil
    refine ⟨m, hm, hgreatest, ?_⟩
    rw [Formula.law, h]
    show Except.ok (t.explode (t.greatest?.getD 0) limit) = _
    rw [hsome, Option.getD_some]

/-- A die with the faces minus one, zero and one explodes at one, if no threshold is given. -/
theorem explode_by_game_of_signed_die :
    Formula.law (.die ⟨-1, 1, by decide⟩) = .ok (Die.law ⟨-1, 1, by decide⟩) ∧
      Formula.law (.explode (.die ⟨-1, 1, by decide⟩) none 2)
        = .ok ((Die.law ⟨-1, 1, by decide⟩).explode 1 2) := by
  have houtcomes : (Die.law ⟨-1, 1, by decide⟩).outcomes = [-1, 0, 1] := by decide
  obtain ⟨m, hm, hgreatest, hlaw⟩ :=
    explode_by_game.2 (.die ⟨-1, 1, by decide⟩) 2 (Die.law ⟨-1, 1, by decide⟩) rfl
  rw [houtcomes] at hm hgreatest
  have hle : 1 ≤ m := hgreatest 1 (by decide)
  have hm1 : m = 1 := by
    simp only [List.mem_cons, List.not_mem_nil, or_false] at hm
    omega
  rw [hm1] at hlaw
  exact ⟨rfl, hlaw⟩

end Table

end DiceLaw
